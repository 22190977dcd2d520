import ArrayDispatch.Proofs.Dispatch.WellFormed
import ArrayDispatch.Proofs.Types.Evaluation
import ArrayDispatch.Proofs.Types.Retable

/-!
Kernels and the generic loop. Where the kernels of flat types evaluate scalars, a call leads to the
same if the types take its operation position by position instead; only the lengths that a failure
names can differ. On every level above, and on tensors, both calls work alike.
-/

namespace ArrayDispatch

/-- Failures of one kind that have escaped from the same frames. -/
structure DispatchError.Corresponds (e e' : DispatchError) : Prop where
  kind_eq : e.cause.ctorIdx = e'.cause.ctorIdx
  frames_eq : e.frames = e'.frames

/-- Computations that have one result, or fail with errors that correspond. -/
inductive Dispatched.Corresponds {α : Type} : Dispatched α → Dispatched α → Prop
  | ok (a : α) : Corresponds (.ok a) (.ok a)
  | error {e e' : DispatchError} (h : e.Corresponds e') : Corresponds (.error e) (.error e')

namespace Dispatched

variable {α β : Type} {x y : Dispatched α}

theorem corresponds_self (x : Dispatched α) : Corresponds x x := by
  cases x with
  | ok a => exact .ok a
  | error e => exact .error ⟨rfl, rfl⟩

theorem Corresponds.escaping (h : Corresponds x y) (f : Frame) :
    Corresponds (escaping f x) (escaping f y) := by
  cases h with
  | ok a => exact .ok a
  | error h => exact .error ⟨h.kind_eq, by simp [h.frames_eq]⟩

end Dispatched

theorem Outcome.corresponds_within {o o' : Outcome} (h : Dispatched.Corresponds o.result o'.result)
    (f : Frame) : Dispatched.Corresponds (o.within f).result (o'.within f).result := by
  simp only [result_within]
  exact h.escaping f

/-! ## Dispatchers -/

namespace Dispatcher

variable {t : TypeTable} {self self' : Dispatcher} {d : Descriptor}

/-- Calls that do not work in place, on operands that fit the type `d`, correspond. -/
def CorrespondOn (t : TypeTable) (self self' : Dispatcher) (d : Descriptor) : Prop :=
  ∀ c held site us, c.Proper → c.mode ≠ .inPlace → us.length = c.op.arity →
    Fitting t c.mode d us → Dispatched.Corresponds (self c held site us).result
      (self' c held site us).result

/-- Calls on scalars evaluate them. -/
def EvaluatesScalars (self : Dispatcher) : Prop :=
  ∀ (c : Call) held site (ss : List Scalar), c.Takes ss.length →
    (self c held site (ss.map .scalar)).result =
      match Scalar.eval c.op c.slot ss with
      | .ok s => .ok (.value (.scalar s))
      | .error cause => fail cause

theorem onElements_corresponds {t' : TypeTable} {c : Call} {site : Site} {us us' : List Value}
    (h : Dispatched.Corresponds (self c us site us).result (self' c us' site us').result) :
    Dispatched.Corresponds (self.onElements t site c us) (self'.onElements t' site c us') := by
  unfold onElements
  generalize (self c us site us).result = x at h
  generalize (self' c us' site us').result = y at h
  cases h with
  | ok o =>
    cases o with
    | value v => exact .ok v
    | notImplemented => exact .error ⟨rfl, rfl⟩
  | error h => exact .error h

theorem EvaluatesScalars.onElements_eq (h : self.EvaluatesScalars) {c : Call} {ss : List Scalar}
    (hc : c.Takes ss.length) (site : Site) :
    self.onElements t site c (ss.map .scalar) =
      match Scalar.eval c.op c.slot ss with
      | .ok s => .ok (.scalar s)
      | .error cause => fail cause := by
  unfold onElements
  rw [h c _ site ss hc]
  cases Scalar.eval c.op c.slot ss <;> rfl

end Dispatcher

namespace Call

variable {c : Call}

theorem Proper.takes (h : c.Proper) {n : Nat} (hn : n = c.op.arity) : c.Takes n := by
  refine ⟨hn ▸ c.op.arity_pos, hn ▸ c.op.arity_le_three, fun m hm => ?_⟩
  cases h with
  | normal _ => cases hm
  | inPlace _ => cases hm
  | select =>
    cases hm
    exact hn.symm
  | compare cmp =>
    cases hm
    exact hn.symm

theorem Proper.exists_slot (h : c.Proper) (hop : c.op = .richcmp) :
    ∃ cmp, c.slot = .compare cmp := by
  cases h with
  | normal hne => exact absurd hop hne
  | inPlace hne => exact absurd hop hne
  | select => cases hop
  | compare cmp => exact ⟨cmp, rfl⟩

end Call

theorem Fitting.exists_scalars {t : TypeTable} {mode : Mode} {info : TypeInfo} {kind : Kind}
    {extent : Extent} (hd : t.Registered (.flat info kind extent)) {us ws : List Value}
    (h : Fitting t mode (.flat info kind extent) us) {i : Nat} (hws : Elements us i ws) :
    ∃ ss : List Scalar, ws = ss.map .scalar ∧ ss.length = us.length := by
  have hscalar : ∀ w ∈ ws, ∃ s, w = .scalar s := by
    intro w hw
    obtain ⟨u, hu, huw⟩ := exists_mem_of_forall₂ hws hw
    obtain ⟨m, _, hparallel, hi⟩ := h.exists_isInstance hd hu
    have hitem := hi.hasItem huw
    rcases hparallel with rfl | hmask
    · obtain ⟨s, rfl, _⟩ := hitem
      exact ⟨s, rfl⟩
    · cases hmask with
      | flat _ _ =>
        obtain ⟨s, rfl, _⟩ := hitem
        exact ⟨s, rfl⟩
  have hlen := hws.length_eq
  clear hws
  rcases Value.exists_scalars_or_array ws with ⟨ss, rfl⟩ | ⟨a, ha⟩
  · exact ⟨ss, rfl, by simpa using hlen.symm⟩
  · obtain ⟨s, hs⟩ := hscalar _ ha
    cases hs

/-! ## The generic loop -/

namespace Loop

variable {l l' : Loop} {us us' : List Value} {p : Payload} {n : Nat}

section Values

variable (hr : l.Reads us n p) (hr' : l'.Reads us' n p)
  (hstore : l'.types.store l'.target = l.types.store l.target)
  (hvalue : ∀ i, i < n → Dispatched.Corresponds (l.valueAt us i) (l'.valueAt us' i))

include hr hr' hstore hvalue

theorem position_corresponds {i : Nat} (hi : i < n) {q : Payload} (hq : l.FilledTo us p i q) :
    Dispatched.Corresponds (l.position q i) (l'.position q i) := by
  rw [hr.position_eq hi hq.rest, hr'.position_eq hi hq.rest, hstore]
  have hcorr := hvalue i hi
  generalize l.valueAt us i = x at hcorr
  generalize l'.valueAt us' i = y at hcorr
  cases hcorr with
  | ok v => exact Dispatched.corresponds_self _
  | error he => exact .error he

/-- Loops that store alike, and whose counterparts correspond on the elements of their operands,
store the same, up to a position where both fail. -/
theorem run_corresponds_of_values :
    (∃ q, l.run p n = (.ok (), q) ∧ l'.run p n = (.ok (), q)) ∨
      ∃ i e e' q q', l.StopsAt p n i e q ∧ l'.StopsAt p n i e' q' ∧ e.Corresponds e' := by
  have hstep : ∀ i q q', i < n → q = q' ∧ l.FilledTo us p i q →
      (∃ s s', l.position q i = .ok s ∧ l'.position q' i = .ok s' ∧
        s = s' ∧ l.FilledTo us p (i + 1) s) ∨
      ∃ e e', l.position q i = .error e ∧ l'.position q' i = .error e' ∧ e.Corresponds e' := by
    rintro i q _ hi ⟨rfl, hfilled⟩
    have hpos := position_corresponds hr hr' hstore hvalue hi hfilled
    cases hs : l.position q i with
    | ok s =>
      cases hs' : l'.position q i <;> rw [hs, hs'] at hpos <;> cases hpos
      exact .inl ⟨s, s, rfl, rfl, rfl, hr.filledTo_succ hi hfilled hs⟩
    | error e =>
      cases hs' : l'.position q i <;> rw [hs, hs'] at hpos <;> cases hpos
      exact .inr ⟨e, _, rfl, rfl, by assumption⟩
  rcases run_simulation _ _ ⟨rfl, filledTo_zero⟩ hstep with
    ⟨q, q', hq, hq', rfl, _⟩ | ⟨i, e, e', q, q', hs, hs', _, he⟩
  · exact .inl ⟨q, hq, hq'⟩
  · exact .inr ⟨i, e, e', q, q', hs, hs', he⟩

end Values

theorem intoNew_corresponds_of_values {site : Site} (hr : l.Reads us n (l.target.alloc site n))
    (hr' : l'.Reads us' n (l.target.alloc site n))
    (hstore : l'.types.store l'.target = l.types.store l.target)
    (hvalue : ∀ i, i < n → Dispatched.Corresponds (l.valueAt us i) (l'.valueAt us' i))
    (halloc : l'.target.alloc site n = l.target.alloc site n) (hkey : l'.target.key = l.target.key)
    (held held' operands operands' : List Value) :
    Dispatched.Corresponds (l.intoNew held site n none operands).result
      (l'.intoNew held' site n none operands').result := by
  unfold intoNew
  rw [halloc, hkey]
  rcases run_corresponds_of_values hr hr' hstore hvalue with
    ⟨q, hq, hq'⟩ | ⟨i, e, e', q, q', hs, hs', he⟩
  · simp only [hq, hq']
    exact .ok _
  · simp only [hs.run_eq, hs'.run_eq]
    exact .error he

/-- Loops over the same operands that store alike, and whose counterparts correspond on the elements
of the operands. -/
structure Correspond (l l' : Loop) (us : List Value) (n : Nat) (p : Payload) : Prop where
  reads : l.Reads us n p
  reads' : l'.Reads us n p
  store_eq : l'.types.store l'.target = l.types.store l.target
  site_eq : l'.site = l.site
  counterparts : ∀ i ws, Elements us i ws → Dispatched.Corresponds
    (l.counterpart (l.site.child i) ws) (l'.counterpart (l.site.child i) ws)

theorem Correspond.valueAt_corresponds (h : l.Correspond l' us n p) (i : Nat) :
    Dispatched.Corresponds (l.valueAt us i) (l'.valueAt us i) := by
  cases hargs : us.mapM (·.elementAt i) with
  | error e =>
    unfold valueAt
    rw [hargs]
    exact Dispatched.corresponds_self _
  | ok ws =>
    have hws : Elements us i ws :=
      (mapM_eq_ok_iff.mp hargs).imp fun _ _ hv => Value.elementAt_eq_ok_iff.mp hv
    rw [valueAt_of_elements hws, valueAt_of_elements hws, h.site_eq]
    exact (h.counterparts i ws hws).escaping _

theorem intoNew_corresponds (us : List Value) {held operands : List Value} {site : Site}
    (h : l.Correspond l' us n (l.target.alloc site n))
    (halloc : l'.target.alloc site n = l.target.alloc site n)
    (hkey : l'.target.key = l.target.key) :
    Dispatched.Corresponds (l.intoNew held site n none operands).result
      (l'.intoNew held site n none operands).result :=
  intoNew_corresponds_of_values h.reads h.reads' h.store_eq
    (fun i _ => h.valueAt_corresponds i) halloc hkey held held operands operands

end Loop

namespace Registry

variable {r : Registry} {self self' : Dispatcher} {c : Call} {held us operands : List Value}
  {site : Site} {d m : Descriptor} {g : TypeInfo → Op → OpEntry} {lens : List Nat}

theorem evaluatesScalars_step (r : Registry) (self : Dispatcher) :
    (r.step self).EvaluatesScalars := fun _ _ _ _ hc => step_scalars_result hc

theorem loopCall_corresponds (ht : r.types.Regular) (hc : c.Proper) (hmode : c.mode ≠ .inPlace)
    (harr : r.Arrays us) (hm : m.info.access = .stock)
    (hself : ∀ i ws s, Elements us i ws →
      Dispatched.Corresponds (self c.inner ws s ws).result (self' c.inner ws s ws).result)
    (held : List Value) (site : Site) (operands : List Value) :
    Dispatched.Corresponds (r.loopCall self c held site d m us operands).result
      ((r.mapOps g).loopCall self' c held site (d.mapOps g) (m.mapOps g) us operands).result := by
  obtain ⟨lens, hl⟩ := exists_lengths harr
  have hmov : c.movable? us operands = none := Call.movable?_eq_none hmode
  rw [loopCall_of_arrays ht harr hl (counterpart_eq hc) hmov,
    loopCall_of_arrays (ht.mapOps g) (harr.mapOps g) hl (counterpart_eq hc) hmov]
  cases reconcileLengths lens with
  | error cause => exact Dispatched.corresponds_self _
  | ok n =>
    refine Loop.intoNew_corresponds us ⟨?_, ?_, ?_, rfl, fun i ws hws => ?_⟩ ?_ ?_
    · exact reads_of_arrays ht harr hl hm _ _ n _
    · exact reads_of_arrays (ht.mapOps g) (harr.mapOps g) hl (by simpa using hm) _ _ n _
    · exact r.types.store_mapOps g m
    · exact Dispatcher.onElements_corresponds (hself i ws _ hws)
    · exact m.alloc_mapOps g site n
    · exact m.key_mapOps g

/-! ## Kernels -/

theorem exists_payloads (h : ∀ u ∈ us, u.isArray = true) : ∃ ps, payloads us = .ok ps := by
  induction us with
  | nil => exact ⟨[], rfl⟩
  | cons u us ih =>
    obtain ⟨ps, hps⟩ := ih fun v hv => h v (List.mem_cons_of_mem _ hv)
    cases u with
    | scalar s => cases h (.scalar s) (by simp)
    | array a =>
      refine ⟨a.payload :: ps, ?_⟩
      unfold payloads at hps ⊢
      rw [List.mapM_cons, hps]
      rfl

theorem contributes_of_elements {ps : List Payload} (h : payloads us = .ok ps) {i : Nat}
    {ss : List Scalar} (hss : Elements us i (ss.map .scalar)) : Kernel.Contributes ps i ss := by
  have hpayloads := forall₂_of_payloads h
  clear h
  induction hpayloads generalizing ss with
  | nil =>
    cases ss with
    | nil => exact .nil
    | cons s ss => cases hss
  | @cons u p us ps hp _ ih =>
    cases ss with
    | nil => cases hss
    | cons s ss =>
      obtain ⟨a, rfl, rfl⟩ := hp
      cases hss with
      | cons hs hss => exact .cons hs (ih hss)

/-- A loop whose counterpart gives the scalars that a buffer holds stores the buffer. -/
theorem run_eq_of_values {l : Loop} {b : Buffer}
    (hreads : l.Reads us b.length (.flat (.zeros b.kind b.length)))
    (hvalue : ∀ i, i < b.length → ∃ (ss : List Scalar) (s : Scalar),
      Elements us i (ss.map .scalar) ∧
      l.counterpart (l.site.child i) (ss.map .scalar) = .ok (.scalar s) ∧
      b.get? i = some ⟨b.kind, s.store b.kind⟩) :
    l.run (.flat (.zeros b.kind b.length)) b.length = (.ok (), .flat b) := by
  obtain ⟨q, hq⟩ := hreads.exists_run (by simp) fun i hi => by
    obtain ⟨ss, s, hss, heval, _⟩ := hvalue i hi
    exact ⟨_, _, _, hss, heval, rfl⟩
  have hfilled := hreads.run_filledTo.1 q hq
  have hlen : q.length = b.length := hfilled.length_eq.trans (by simp)
  rw [hq]
  refine congrArg _ (Payload.eq_of_get?_eq hfilled.form_eq ?_ hlen fun i hi => ?_)
  · rw [hfilled.form_eq]
    simp [Payload.form]
  · obtain ⟨ss, s, hss, heval, hb⟩ := hvalue i (hlen ▸ hi)
    obtain ⟨ws, v, w, hws, hv, hw, hgetq⟩ := hfilled.done i (hlen ▸ hi)
    cases hss.unique hws
    rw [heval] at hv
    cases hv
    cases hw
    rw [hgetq]
    exact (congrArg (Option.map Value.scalar) hb).symm

/-- What a kernel makes of the payloads of the operands: it refuses lengths that do not agree, and
otherwise holds at every position the value of the scalars that the operands contribute. -/
inductive KernelResult (c : Call) (us : List Value) (lens : List Nat) (k' : Kind) :
    Attempt Payload → Prop
  | sizes (sizes : List Nat) (h : reconcileLengths lens = .error (.sizes lens)) :
    KernelResult c us lens k' (.error (.sizes sizes))
  | values (b : Buffer) (hkind : b.kind = k') (h : reconcileLengths lens = .ok b.length)
      (hvalue : ∀ i, i < b.length → ∃ (ss : List Scalar) (s : Scalar),
        Elements us i (ss.map .scalar) ∧ Scalar.eval c.op c.slot ss = .ok s ∧
          b.get? i = some ⟨b.kind, s.store b.kind⟩) :
    KernelResult c us lens k' (.ok (.flat b))

theorem kernelResult {info : TypeInfo} {kind : Kind} {extent : Extent}
    (h : r.Prepared c (.flat info kind extent) m us us) (hselect : c.op ≠ .select)
    (hlen : us.length = c.op.arity) {kernel : Kernel}
    (hkernel : kernel.Evaluates c.op kind (if c.op = .richcmp then .bool else kind))
    (hl : Lengths us lens) :
    KernelResult c us lens (if c.op = .richcmp then .bool else kind)
      (payloads us >>= kernel.run c.op c.slot) := by
  have hinstance := h.fitting.isInstance fun hm => hselect (h.proper.op_eq_select hm)
  have hne : lens ≠ [] := by
    rintro rfl
    cases hl
    exact absurd h.representative_lt (Nat.not_lt_zero _)
  obtain ⟨ps, hps⟩ : ∃ ps, payloads us = .ok ps := exists_payloads fun u hu => by
    obtain ⟨a, rfl, _⟩ := hinstance u hu
    rfl
  cases (lengths_of_payloads hps).unique hl
  have hforms : ∀ p ∈ ps, p.form = .flat kind := by
    intro p hp
    obtain ⟨u, hu, a, rfl, rfl⟩ := exists_mem_of_forall₂ (forall₂_of_payloads hps) hp
    exact (hinstance _ hu).form_eq
  have hcount : ps.length = c.op.arity := (forall₂_of_payloads hps).length_eq.symm.trans hlen
  have hevaluated := hkernel c.slot ps hcount h.proper.exists_slot hforms
  rw [hps]
  change KernelResult c us (ps.map Payload.length) _ (kernel.run c.op c.slot ps)
  cases hrun : kernel.run c.op c.slot ps with
  | error cause =>
    rw [hrun] at hevaluated
    obtain ⟨⟨sizes, rfl⟩, hnot⟩ := hevaluated
    refine .sizes sizes ((reconcileLengths_eq_error_iff hne).mpr ⟨rfl, ?_⟩)
    rintro ⟨n, hn⟩
    exact hnot n hn
  | ok q =>
    rw [hrun] at hevaluated
    obtain ⟨b, rfl, hkind, hrec, hget⟩ := hevaluated
    refine .values b hkind ((reconcileLengths_eq_ok_iff_reconciles hne).mpr hrec) fun i hi => ?_
    obtain ⟨ws, hws⟩ := exists_elements_of_instances rfl hinstance hl hrec hi
    obtain ⟨ss, rfl, _⟩ := h.fitting.exists_scalars h.registered hws
    obtain ⟨s, hs, hb⟩ := hget i ss hi (contributes_of_elements hps hws)
    exact ⟨ss, s, hws, hs, hkind ▸ hb⟩

/-- A kernel that evaluates scalars against the generic loop: both refuse lengths that do not agree,
and otherwise store the same. -/
theorem kernel_corresponds (ht : r.types.Regular) {info : TypeInfo} {kind : Kind} {extent : Extent}
    (h : r.Prepared c (.flat info kind extent) m us us) (hmode : c.mode ≠ .inPlace)
    (hselect : c.op ≠ .select) (hlen : us.length = c.op.arity) {kernel : Kernel}
    (hkernel : kernel.Evaluates c.op kind (if c.op = .richcmp then .bool else kind))
    (hself : self'.EvaluatesScalars) (held : List Value) (site : Site) (operands : List Value) :
    Dispatched.Corresponds
      (match payloads us >>= kernel.run c.op c.slot with
        | .ok p => finish held operands (c.movable? us operands) ⟨site, m.key, p⟩
        | .error cause => .failedBy operands cause).result
      ((r.mapOps g).loopCall self' c held site ((Descriptor.flat info kind extent).mapOps g)
        (m.mapOps g) us operands).result := by
  have haccess := ht.access_of_registered h.registered_target
  obtain ⟨lens, hl⟩ := exists_lengths h.arrays
  have hmov : c.movable? us operands = none := Call.movable?_eq_none hmode
  have hresult := kernelResult h hselect hlen hkernel hl
  rw [loopCall_of_arrays (ht.mapOps g) (h.arrays.mapOps g) hl (counterpart_eq h.proper) hmov, hmov]
  generalize payloads us >>= kernel.run c.op c.slot = x at hresult
  cases hresult with
  | sizes sizes hrec =>
    rw [hrec]
    exact .error ⟨rfl, rfl⟩
  | values b hkind hrec hvalue =>
    obtain ⟨info', extent', rfl⟩ := h.targets.exists_flat
    simp only [h.proper.richCompare_iff] at haccess ⊢
    rw [hrec, ← hkind] at *
    have hreads := reads_of_arrays (ht.mapOps g) (h.arrays.mapOps g) hl
      (show ((Descriptor.flat info' b.kind extent').mapOps g).info.access = .stock from haccess)
      (fun site args => self'.onElements (r.types.mapOps g) site c.inner args) (site.child 4)
      b.length (.flat (.zeros b.kind b.length))
    have hstored := run_eq_of_values hreads fun i hi => by
      obtain ⟨ss, s, hss, hs, hb⟩ := hvalue i hi
      have hcount : ss.length = c.op.arity := by
        rw [← hlen, hss.length_eq, List.length_map]
      have heval := hself.onElements_eq (t := r.types.mapOps g) (h.proper.inner.takes hcount)
        ((site.child 4).child i)
      rw [show Scalar.eval c.inner.op c.inner.slot ss = .ok s from hs] at heval
      exact ⟨ss, s, hss, heval, hb⟩
    unfold Loop.intoNew
    simp only [Descriptor.mapOps, Descriptor.alloc, Payload.zeros, types_mapOps] at hstored ⊢
    rw [hstored]
    exact .ok _

end Registry

/-- The tables that `g` gives differ from those of the type at most in that they take operations
position by position for which the type is flat and has a kernel that evaluates scalars. -/
def Descriptor.Simplifies (g : TypeInfo → Op → OpEntry) (d : Descriptor) : Prop :=
  ∀ op, g d.info op = d.op op ∨
    ∃ info kind extent kernel, d = .flat info kind extent ∧ info.ops op = .native kernel ∧
      g info op = .generic ∧ kernel.Evaluates op kind (if op = .richcmp then .bool else kind)

namespace Registry

/-! ## Calls on one type -/

section Calls

variable {r : Registry} {self self' : Dispatcher} {c : Call} {us : List Value} {site : Site}
  {d m : Descriptor} {g : TypeInfo → Op → OpEntry} (ht : r.types.Regular) (hl : r.types.Lawful)
  (h : r.Prepared c d m us us) (hmode : c.mode ≠ .inPlace) (hlen : us.length = c.op.arity)

include ht hl h hmode hlen

theorem arrayCall_corresponds (hg : d.Simplifies g) (hscalars : self'.EvaluatesScalars)
    (hself : ∀ i ws s, Elements us i ws →
      Dispatched.Corresponds (self c.inner ws s ws).result (self' c.inner ws s ws).result)
    (held : List Value) (site : Site) (operands : List Value) :
    Dispatched.Corresponds (r.arrayCall self c held site d us operands).result
      ((r.mapOps g).arrayCall self' c held site (d.mapOps g) us operands).result := by
  have haccess := ht.access_of_registered h.registered_target
  have hdesc' : (r.types.mapOps g).descriptor (c.resultType d) = .ok (m.mapOps g) := by
    rw [TypeTable.descriptor_mapOps, h.descriptor_eq]
    rfl
  unfold arrayCall
  simp only [Call.isUnordered_mapOps, Call.resultType_mapOps, types_mapOps, h.descriptor_eq, hdesc',
    Descriptor.op_mapOps, Descriptor.key_mapOps]
  cases c.isUnordered d with
  | true => exact Dispatched.corresponds_self _
  | false =>
    simp only [Bool.false_eq_true, if_false]
    rcases hg c.op with hsame | ⟨info, kind, extent, kernel, rfl, hop, hgeneric, hkernel⟩
    · rw [hsame]
      cases d.op c.op with
      | unsupported => exact Dispatched.corresponds_self _
      | native kernel => exact Dispatched.corresponds_self _
      | generic => exact loopCall_corresponds ht h.proper hmode h.arrays haccess hself held site _
    · have hfit := hl.kernelsFit _ (TypeTable.Regular.mem_of_registered h.registered)
      have hop' : (Descriptor.flat info kind extent).op c.op = .native kernel := hop
      have hgeneric' : g (Descriptor.flat info kind extent).info c.op = .generic := hgeneric
      simp only [hop', hgeneric']
      exact kernel_corresponds ht h hmode (hfit _ _ hop).1 hlen hkernel hscalars held site _

end Calls

section Calls

variable {r : Registry} {self self' : Dispatcher} {c : Call} {us : List Value} {d m : Descriptor}
  {g : TypeInfo → Op → OpEntry} (ht : r.types.Regular)

include ht

theorem tensorCall_corresponds {info : TypeInfo} {backing : Descriptor}
    (h : r.Prepared c (.tensor info backing) m us us) (hlen : us.length = c.op.arity)
    (hmode : c.mode ≠ .inPlace) (hself : Dispatcher.CorrespondOn r.types self self' backing)
    (held : List Value) (site : Site) (operands : List Value) :
    Dispatched.Corresponds (r.tensorCall self c held site us operands).result
      ((r.mapOps g).tensorCall self' c held site us operands).result := by
  have hd := h.registered
  have htensors := h.fitting.tensors hd
  obtain ⟨a, ha, _, hi⟩ := h.fitting.exists_representative h.representative_lt
  have hfind : r.types.descriptor? a.type = some (.tensor info backing) := by
    rw [hi.type_eq]
    exact hd
  obtain ⟨shapes, hs⟩ := exists_shapes htensors
  have hmov : c.movable? us operands = none := Call.movable?_eq_none hmode
  unfold tensorCall
  rw [tensorParts_mapOps, tensorParts_of_representative ha hfind, hmov]
  cases hrec : Shape.reconcile shapes with
  | error cause =>
    rw [expandAll_of_reconcile_eq_error ht htensors hs hrec]
    exact Dispatched.corresponds_self _
  | ok dst =>
    by_cases hfits : Shape.Fits dst
    swap
    · rw [expandAll_of_not_fits ht htensors hs hrec hfits]
      exact Dispatched.corresponds_self _
    obtain ⟨arrays, harrays, hx⟩ :=
      exists_expandAll ht htensors hs hrec hfits (site.child 2)
    have hinner : (⟨c.mode.nested, c.op, c.slot⟩ : Call) = c.inner := rfl
    have hresult := hself c.inner [] (site.child 3) arrays h.proper.inner c.inner_mode_ne
      (hx.length_eq.symm.trans hlen) (h.fitting.expanded ht hd hx).inner
    rw [harrays]
    simp only [Descriptor.isTensor, if_true, Except.map, hinner, Call.resultType_mapOps]
    generalize (self c.inner [] (site.child 3) arrays).result = x at hresult
    generalize (self' c.inner [] (site.child 3) arrays).result = y at hresult
    cases hresult with
    | error he => exact .error he
    | ok o => exact Dispatched.corresponds_self _

theorem resolve_corresponds (hl : r.types.Lawful) (h : r.Prepared c d m us us)
    (hlen : us.length = c.op.arity) (hmode : c.mode ≠ .inPlace) (hg : d.Simplifies g)
    (hscalars : self.EvaluatesScalars) (hscalars' : self'.EvaluatesScalars)
    (hself : ∀ e, d.component? = some e → Dispatcher.CorrespondOn r.types self self' e)
    (held : List Value) (site : Site) (operands : List Value) :
    Dispatched.Corresponds (r.resolve self c held site us operands).result
      ((r.mapOps g).resolve self' c held site us operands).result := by
  obtain ⟨a, ha, _, hi⟩ := h.fitting.exists_representative h.representative_lt
  have hfind : r.types.descriptor? a.type = some d := by
    rw [hi.type_eq]
    exact h.registered
  have hfind' : (r.mapOps g).types.descriptor? a.type = some (d.mapOps g) := by
    rw [types_mapOps, TypeTable.descriptor?_mapOps, hfind]
    rfl
  rw [resolve_of_representative ha hfind, resolve_of_representative ha hfind',
    Descriptor.isTensor_mapOps]
  have hfit := h.fitting
  have hd := h.registered
  cases d with
  | flat info kind extent =>
    refine arrayCall_corresponds ht hl h hmode hlen hg hscalars' (fun i ws s hws => ?_) held site _
    obtain ⟨ss, rfl, hss⟩ := hfit.exists_scalars hd hws
    have htakes := h.proper.inner.takes (hss.trans hlen)
    rw [hscalars _ _ _ _ htakes, hscalars' _ _ _ _ htakes]
    exact Dispatched.corresponds_self _
  | nested info element extent =>
    refine arrayCall_corresponds ht hl h hmode hlen hg hscalars' (fun i ws s hws => ?_) held site _
    exact hself element rfl c.inner ws s ws h.proper.inner c.inner_mode_ne
      (hws.length_eq.symm.trans hlen) (hfit.elements ht hws).inner
  | tensor info backing =>
    exact tensorCall_corresponds ht h hlen hmode (hself backing rfl) held site _

/-! ## Nested calls -/

section Nested

variable (hl : r.types.Lawful) (hu : r.unifier = .promote)
  (hg : ∀ d ∈ r.types.types, d.Simplifies g)

include hl hu hg

theorem correspondOn_step (hd : r.types.Registered d) (hscalars : self.EvaluatesScalars)
    (hscalars' : self'.EvaluatesScalars)
    (hself : ∀ e, d.component? = some e → Dispatcher.CorrespondOn r.types self self' e) :
    Dispatcher.CorrespondOn r.types (r.step self) ((r.mapOps g).step self') d := by
  intro c held site us hc hmode hlen hfit
  have htakes := hc.takes hlen
  have hlt := htakes.representative_lt
  obtain ⟨a, _, hmem, _⟩ := hfit.exists_representative hlt
  obtain ⟨m, hm, htarget⟩ := Call.exists_targets hl c hd
  have h := prepared_of_fitting hc hmode hd hm htarget hfit hlt
  have hunified : r.unified c site us = .ok us := unified_of_fitting hu hd hfit hlt
  rw [step_of_isArray htakes hmem, step_of_isArray htakes hmem, unified_mapOps g r hu, hunified,
    frameOf_mapOps]
  exact Outcome.corresponds_within (resolve_corresponds ht hl h hlen hmode
    (hg d (TypeTable.Regular.mem_of_registered hd)) hscalars hscalars' hself held site us) _

/-- Calls on operands of a plain type correspond, down to the scalars. -/
theorem correspondOn_applyWithin (hd : r.types.Registered d) (hp : d.isTensor = false) {k : Nat}
    (hk : d.ndim < k) :
    Dispatcher.CorrespondOn r.types (r.applyWithin k) ((r.mapOps g).applyWithin k) d := by
  induction d generalizing k with
  | flat info kind extent =>
    obtain ⟨k, rfl⟩ : ∃ j, k = j + 2 := ⟨k - 2, by simp only [Descriptor.ndim] at hk; omega⟩
    exact correspondOn_step ht hl hu hg hd (evaluatesScalars_step r _) (evaluatesScalars_step _ _)
      fun e he => by cases he
  | nested info element extent ih =>
    simp only [Descriptor.ndim] at hk
    obtain ⟨k, rfl⟩ : ∃ j, k = j + 2 := ⟨k - 2, by omega⟩
    refine correspondOn_step ht hl hu hg hd (evaluatesScalars_step r _) (evaluatesScalars_step _ _)
      fun e he => ?_
    cases he
    exact ih (ht.registered_component hd rfl) (ht.component_isTensor hd rfl) (by omega)
  | tensor info backing => cases hp

theorem apply_corresponds_of_ne {vs : List Value} (hc : c.Proper) (hmode : c.mode ≠ .inPlace)
    (hlen : vs.length = c.op.arity) (hvs : ∀ v ∈ vs, r.types.WellFormed v) (held : List Value)
    (site : Site) :
    Dispatched.Corresponds (r.apply c held site vs).result
      ((r.mapOps g).apply c held site vs).result := by
  have htakes := hc.takes hlen
  obtain ⟨k, hk⟩ := r.exists_levels_eq vs
  have hdepth := fun d (hd : r.types.Registered d) => succ_ndim_lt_levels hd vs
  unfold apply
  rw [levels_mapOps]
  rw [hk] at hdepth ⊢
  change Dispatched.Corresponds (r.step (r.applyWithin (k + 1)) c held site vs).result
    ((r.mapOps g).step ((r.mapOps g).applyWithin (k + 1)) c held site vs).result
  rcases Value.exists_scalars_or_array vs with ⟨ss, rfl⟩ | ⟨a, ha⟩
  · rw [step_scalars_result (by simpa using htakes), step_scalars_result (by simpa using htakes)]
    exact Dispatched.corresponds_self _
  · rw [step_of_isArray htakes ha, step_of_isArray htakes ha, unified_mapOps g r hu,
      frameOf_mapOps]
    cases hus : r.unified c site vs with
    | error e => exact Dispatched.corresponds_self _
    | ok us =>
      obtain ⟨d, hd, hfit, hlenus⟩ := exists_fitting ht hl hu hvs ha htakes.representative_lt hus
      obtain ⟨m, hm, htarget⟩ := Call.exists_targets hl c hd
      have h := prepared_of_fitting hc hmode hd hm htarget hfit
        (hlenus ▸ htakes.representative_lt)
      refine Outcome.corresponds_within (resolve_corresponds ht hl h (hlenus.trans hlen) hmode
        (hg d (TypeTable.Regular.mem_of_registered hd)) (evaluatesScalars_step r _)
        (evaluatesScalars_step _ _) (fun e he => ?_) held site vs) _
      have hde := ht.registered_component hd he
      have hlt : e.ndim < k + 1 := by
        have hle := Descriptor.ndim_le_of_component? he
        have hdk := hdepth d hd
        omega
      exact correspondOn_applyWithin ht hl hu hg hde (ht.component_isTensor hd he) hlt

end Nested

end Calls

end Registry

/-! ## Calls in every mode -/

/-- Neither call supports the operation, both fail with errors that correspond, or both return
values that agree. -/
def Outcome.Corresponds (o o' : Outcome) : Prop :=
  match o.result, o'.result with
  | .ok x, .ok y => x.Agrees y
  | .error e, .error e' => e.Corresponds e'
  | _, _ => False

theorem Value.agrees_of_agrees {u v w : Value} (hv : v.Agrees u) (hw : w.Agrees u) :
    v.Agrees w := by
  cases u <;> cases v <;> cases w <;> simp_all [Value.Agrees]

theorem Applied.agrees_of_agrees {x y z : Applied} (hx : x.Agrees z) (hy : y.Agrees z) :
    x.Agrees y := by
  cases z with
  | notImplemented => cases x <;> cases y <;> trivial
  | value u =>
    cases x with
    | notImplemented => cases hx
    | value v =>
      cases y with
      | notImplemented => cases hy
      | value w => exact Value.agrees_of_agrees hx hy

theorem Outcome.corresponds_of_agrees {o o' u u' : Outcome} (h : o.Agrees u) (h' : o'.Agrees u')
    (hu : Dispatched.Corresponds u.result u'.result) : o.Corresponds o' := by
  unfold Agrees at h h'
  unfold Corresponds
  generalize u.result = x at h hu
  generalize u'.result = y at h' hu
  cases hu with
  | ok x =>
    cases ho : o.result <;> rw [ho] at h <;> cases ho' : o'.result <;> rw [ho'] at h' <;> simp_all
    exact Applied.agrees_of_agrees h h'
  | error he =>
    cases ho : o.result <;> rw [ho] at h <;> cases ho' : o'.result <;> rw [ho'] at h' <;> simp_all

namespace Registry

variable {r : Registry} (ht : r.types.Regular) (hu : r.unifier = .promote) {vs : List Value}
  (hvs : ∀ v ∈ vs, r.types.WellFormed v) {site : Site}

include ht hu hvs

/-- A call agrees with the one that is dispatched on elements, which does not work in place. -/
theorem apply_agrees_inner {c : Call} (hc : c.Proper) (hh : Handles site vs) (held : List Value) :
    (r.apply c held site vs).Agrees (r.apply c.inner held site vs) := by
  cases hc with
  | inPlace hop =>
    obtain ⟨k, hk⟩ := r.exists_apply_eq vs
    rw [hk, hk]
    exact (step_inPlace ht hu hvs hh).1
  | _ => exact Outcome.agrees_of_result_eq rfl

/-- Calls lead to the same, up to the lengths that a failure names, whether a type has kernels that
evaluate scalars or takes their operations position by position. -/
theorem apply_corresponds (hl : r.types.Lawful) {g : TypeInfo → Op → OpEntry}
    (hg : ∀ d ∈ r.types.types, d.Simplifies g) {c : Call} (hc : c.Proper)
    (hlen : vs.length = c.op.arity) (hh : Handles site vs) (held : List Value) :
    (r.apply c held site vs).Corresponds ((r.mapOps g).apply c held site vs) := by
  have hagrees := apply_agrees_inner ht hu hvs hc hh held
  have hagrees' : ((r.mapOps g).apply c held site vs).Agrees
      ((r.mapOps g).apply c.inner held site vs) :=
    apply_agrees_inner (r := r.mapOps g) (ht.mapOps g) hu (fun v hv => (hvs v hv).mapOps g) hc hh
      held
  refine Outcome.corresponds_of_agrees hagrees hagrees' ?_
  exact apply_corresponds_of_ne ht hl hu hg hc.inner c.inner_mode_ne hlen hvs held site

end Registry

end ArrayDispatch
