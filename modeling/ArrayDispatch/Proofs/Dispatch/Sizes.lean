import ArrayDispatch.Proofs.Dispatch.Failure
import ArrayDispatch.Proofs.Dispatch.Native
import ArrayDispatch.Proofs.Scalar.Eval
import ArrayDispatch.Proofs.Shape.Agreement

/-!
Failures that name lengths. A call on flat arrays fails so exactly if the lengths of its operands do
not agree. The generic loop names the lengths of all operands. A kernel reconciles two lengths at a
time and names these, which are all of them unless there are three operands.
-/

namespace ArrayDispatch

/-- The lengths that a failure names. -/
def Cause.sizes? : Cause → Option (List Nat)
  | sizes ns => some ns
  | _ => none

/-- The lengths that meet in a kernel that pairs the first two of three operands: these two if they
do not agree, and otherwise the one they agree on and the third. -/
def pairedLengths : List Nat → List Nat
  | [l, m, n] =>
    match reconcileLengths [l, m] with
    | .ok k => [k, n]
    | .error _ => [l, m]
  | lens => lens

/-- The lengths that an implementation names if those of the operands do not agree. -/
def OpEntry.namedLengths (op : Op) : OpEntry → List Nat → List Nat
  | native _, lens => if op = .fma then pairedLengths lens else lens
  | _, lens => lens

/-! ## Kernels -/

namespace Kernel

/-- What the kernel names on payloads of kind `k` if it refuses their lengths. -/
def Names (kernel : Kernel) (op : Op) (k : Kind) : Prop :=
  ∀ slot ps sizes, ps.length = op.arity → (∀ p ∈ ps, p.form = .flat k) →
    kernel.run op slot ps = .error (.sizes sizes) →
      sizes = (OpEntry.native kernel).namedLengths op (ps.map Payload.length)

section Names

variable {α β γ : Type} {k : Kind} {op : Op} {sizes : List Nat}

theorem sizes_of_zipMap {δ : Type} {f : α → β → γ} {g : List γ → δ} {xs : List α} {ys : List β}
    (h : (zipMap f xs ys).map g = .error (.sizes sizes)) : sizes = [xs.length, ys.length] := by
  have hzip := map_eq_error_iff.mp h
  rcases zipMap_cases f xs ys with ⟨herr, _⟩ | ⟨zs, hok, _⟩
  · rw [herr] at hzip
    cases hzip
    rfl
  · rw [hok] at hzip
    cases hzip

theorem names_unary {f : Payload → Attempt Payload} (harity : op.arity = 1)
    (h : ∀ xs sizes, f (.flat ⟨k, xs⟩) ≠ .error (.sizes sizes)) : (unary f).Names op k := by
  intro slot ps sizes hlen hps hrun
  obtain ⟨p, rfl⟩ := List.length_eq_one_iff.mp (hlen.trans harity)
  obtain ⟨⟨_, xs⟩, rfl, rfl⟩ := Payload.form_eq_flat_iff.mp (hps p (by simp))
  exact absurd hrun (h xs sizes)

theorem names_binary {f : Payload → Payload → Attempt Payload} (harity : op.arity = 2)
    (h : ∀ xs ys sizes, f (.flat ⟨k, xs⟩) (.flat ⟨k, ys⟩) = .error (.sizes sizes) →
      sizes = [xs.length, ys.length]) : (binary f).Names op k := by
  intro slot ps sizes hlen hps hrun
  obtain ⟨xs, ys, rfl⟩ := exists_two_flat (hlen.trans harity) hps
  have hop : op ≠ .fma := by
    rintro rfl
    cases harity
  rw [OpEntry.namedLengths, if_neg hop]
  exact h xs ys sizes hrun

theorem names_compare {f : Comparison → Payload → Payload → Attempt Payload}
    (h : ∀ cmp, (binary (f cmp)).Names op k) : (compare f).Names op k := by
  intro slot ps sizes hlen hps hrun
  match ps, slot with
  | [a, b], .compare cmp => exact h cmp slot [a, b] sizes hlen hps hrun
  | [a, b], .method | [a, b], .function _ | [], _ | [_], _ | _ :: _ :: _ :: _, _ => cases hrun

end Names

section Stock

variable (format : Format) {op : Op}

theorem names_floatUnary (name : String) (f : {p : Format} → Binary p → Binary p)
    (harity : op.arity = 1) : (unary (floatUnary name f)).Names op (.float format) :=
  names_unary harity fun _ _ h => by cases h

theorem names_floatBinary (name : String) (f : {p : Format} → Binary p → Binary p → Binary p)
    (harity : op.arity = 2) : (binary (floatBinary name f)).Names op (.float format) := by
  refine names_binary harity fun xs ys sizes h => ?_
  cases format <;> exact sizes_of_zipMap h

theorem names_boolBinary (name : String) (f : Bool → Bool → Bool) (harity : op.arity = 2) :
    (binary (boolBinary name f)).Names op .bool :=
  names_binary harity fun _ _ _ h => sizes_of_zipMap h

theorem names_richCompare (harity : op.arity = 2) : richCompare.Names op (.float format) := by
  refine names_compare fun cmp => names_binary harity fun xs ys sizes h => ?_
  cases format <;> exact sizes_of_zipMap h

/-- The factors are paired first, and the summand meets the pairs. -/
theorem sizes_of_fmaOn {xs ys zs : List (Binary format)} {sizes : List Nat}
    (h : fmaOn xs ys zs = .error (.sizes sizes)) :
    sizes = pairedLengths [xs.length, ys.length, zs.length] := by
  have hne : [xs.length, ys.length] ≠ [] := by simp
  unfold fmaOn at h
  rcases bind_eq_error_iff.mp h with h | ⟨pairs, hpairs, h⟩
  · rcases zipMap_cases (fun x y => (x, y)) xs ys with ⟨herr, hnot⟩ | ⟨pairs, hok, _⟩
    · have hrec : reconcileLengths [xs.length, ys.length] =
          .error (.sizes [xs.length, ys.length]) :=
        (reconcileLengths_eq_error_iff hne).mpr ⟨rfl, fun ⟨n, hn⟩ => hnot n hn⟩
      rw [herr] at h
      cases h
      simp only [pairedLengths, hrec]
    · rw [hok] at h
      cases h
  · have hrec : reconcileLengths [xs.length, ys.length] = .ok pairs.length :=
      (reconcileLengths_eq_ok_iff_reconciles hne).mpr (reconciles_of_zipMap hpairs)
    rcases bind_eq_error_iff.mp h with h | ⟨sums, _, h⟩
    · simp only [pairedLengths, hrec]
      exact sizes_of_zipMap (g := id) (map_eq_error_iff.mpr h)
    · cases h

theorem names_fma : fma.Names .fma (.float format) := by
  intro slot ps sizes hlen hps hrun
  match ps with
  | [a, b, c] =>
    obtain ⟨⟨_, xs⟩, rfl, hx⟩ := Payload.form_eq_flat_iff.mp (hps a (by simp))
    obtain ⟨⟨_, ys⟩, rfl, hy⟩ := Payload.form_eq_flat_iff.mp (hps b (by simp))
    obtain ⟨⟨_, zs⟩, rfl, hz⟩ := Payload.form_eq_flat_iff.mp (hps c (by simp))
    cases hx
    cases hy
    cases hz
    cases format <;> exact sizes_of_fmaOn _ hrun
  | [] | [_] | [_, _] | _ :: _ :: _ :: _ :: _ => cases hlen

end Stock

end Kernel

/-! ## The generic loop -/

theorem Cause.OfScalars.sizes?_eq {c : Cause} (h : c.OfScalars) : c.sizes? = none := by
  cases c <;> first | rfl | cases h

namespace Loop

/-- The operands of the loop are instances of a flat type, apart from those that are the storage it
writes. -/
structure ReadsScalars (l : Loop) : Prop where
  regular : l.types.Regular
  isInstance : ∃ info kind extent, l.types.Registered (.flat info kind extent) ∧
    ∀ v len, (some v, len) ∈ l.sources → (Descriptor.flat info kind extent).IsInstance v
  target : l.target.info.access = .stock

variable {l : Loop} {p q : Payload} {i n : Nat} {k : Kind} {source : Option Value × Nat}

theorem sizes?_of_argument {e : DispatchError} (h : l.argument p i source = .error e) :
    e.cause.sizes? = none := by
  obtain ⟨_ | v, len⟩ := source
  · rcases bind_eq_error_iff.mp h with h | ⟨item, _, h⟩
    · cases h
    · cases item <;> cases h
      rfl
  · rcases bind_eq_error_iff.mp h with h | ⟨item, _, h⟩
    · cases v with
      | scalar s => cases h
      | array a =>
        rcases bind_eq_error_iff.mp h with h | ⟨d, _, h⟩
        · obtain ⟨cause, hcause, rfl⟩ := lift_eq_error_iff.mp h
          unfold TypeTable.descriptor at hcause
          split at hcause <;> cases hcause
          rfl
        · cases h
    · cases item <;> cases h
      rfl

theorem ReadsScalars.exists_scalar (h : l.ReadsScalars) (hp : p.form = .flat k)
    (hs : source ∈ l.sources) {v : Value} (hv : l.argument p i source = .ok v) :
    ∃ s, v = .scalar s := by
  obtain ⟨_ | u, len⟩ := source
  · obtain ⟨item, hitem, hv⟩ := bind_eq_ok_iff.mp hv
    cases hitem
    obtain ⟨b, rfl, _⟩ := Payload.form_eq_flat_iff.mp hp
    simp only [Descriptor.item?, h.target] at hv
    split at hv
    · rename_i hget
      cases hv
      obtain ⟨s, _, rfl⟩ := Option.map_eq_some_iff.mp hget
      exact ⟨s, rfl⟩
    · cases hv
  · obtain ⟨info, kind, extent, hd, hinstance⟩ := h.isInstance
    obtain ⟨j, hj⟩ := itemOf_of_argument hv
    obtain ⟨s, hs, _⟩ := hasItem_of_itemOf h.regular hd (hinstance u len hs) hj
    exact ⟨s, hs⟩

theorem ReadsScalars.exists_scalars (h : l.ReadsScalars) (hp : p.form = .flat k)
    {args : List Value} (hargs : l.sources.mapM (l.argument p i) = .ok args) :
    ∃ ss : List Scalar, args = ss.map .scalar ∧ ss.length = l.sources.length := by
  have hall := mapM_eq_ok_iff.mp hargs
  rcases Value.exists_scalars_or_array args with ⟨ss, rfl⟩ | ⟨a, ha⟩
  · exact ⟨ss, rfl, by simpa using hall.length_eq.symm⟩
  · obtain ⟨source, hs, hv⟩ := exists_mem_of_forall₂ hall ha
    obtain ⟨s, hs⟩ := h.exists_scalar hp hs hv
    cases hs

section Run

variable (h : l.ReadsScalars)
  (hcounter : ∀ site (ss : List Scalar) e, ss.length = l.sources.length →
    l.counterpart site (ss.map .scalar) = .error e → e.cause.sizes? = none)

include h hcounter

theorem sizes?_of_position (hp : p.form = .flat k) {e : DispatchError}
    (he : l.position p i = .error e) : e.cause.sizes? = none := by
  unfold position at he
  rcases bind_eq_error_iff.mp he with he | ⟨args, hargs, he⟩
  · obtain ⟨source, _, he⟩ := exists_of_mapM_eq_error he
    exact sizes?_of_argument he
  obtain ⟨ss, rfl, hlen⟩ := h.exists_scalars hp hargs
  rcases bind_eq_error_iff.mp he with he | ⟨v, _, he⟩
  · obtain ⟨e', he', rfl⟩ := escaping_eq_error_iff.mp he
    exact hcounter _ ss e' hlen he'
  · unfold TypeTable.store at he
    split at he <;> cases he
    rfl

/-- The storage stays flat while the loop runs, so every position reads scalars. -/
theorem sizes?_of_run (hp : p.form = .flat k) {e : DispatchError}
    (he : l.run p n = (.error e, q)) : e.cause.sizes? = none := by
  have hstep : ∀ i q q', i < n → q.form = .flat k → l.position q i = .ok q' →
      q'.form = .flat k := by
    intro i q q' _ hq hpos
    obtain ⟨args, _, hpos⟩ := bind_eq_ok_iff.mp hpos
    obtain ⟨v, _, hstore⟩ := bind_eq_ok_iff.mp hpos
    obtain ⟨w, _, hwritten⟩ :=
      Payload.written_of_set_eq_ok ((TypeTable.store_of_stock h.target).mp hstore)
    exact hwritten.form_eq.trans hq
  obtain ⟨i, _, hq, he⟩ := (run_invariant (fun _ q => q.form = .flat k) hp hstep).2 e q he
  exact sizes?_of_position h hcounter hq he

end Run

/-! A loop fails as its run does, whatever storage it writes. -/

theorem run_of_intoNew_eq_error {held vs : List Value} {site : Site} {target : Option Object}
    {e : DispatchError} (he : (l.intoNew held site n target vs).result = .error e) :
    ∃ q, l.run (l.target.alloc site n) n = (.error e, q) := by
  unfold intoNew at he
  rcases hrun : l.run (l.target.alloc site n) n with ⟨e' | u, q⟩
  · simp only [hrun] at he
    cases he
    exact ⟨q, rfl⟩
  · simp only [hrun] at he
    exact absurd he (Registry.finish_result_ne _ _ e)

theorem run_of_intoOperand_eq_error {a : Object} {unique : Bool} {site : Site} {vs : List Value}
    {e : DispatchError} (he : (l.intoOperand a unique site n vs).result = .error e) :
    ∃ q, l.run a.payload n = (.error e, q) := by
  unfold intoOperand at he
  rcases hrun : l.run a.payload n with ⟨e' | u, q⟩
  · simp only [hrun] at he
    cases he
    exact ⟨q, rfl⟩
  · simp only [hrun] at he
    cases he

end Loop

/-! ## Calls -/

/-- The outcome of a call on operands of the lengths `lens`: it fails and names `sizes` if these do
not agree, and fails over no lengths if they do. -/
def Outcome.ChecksLengths (lens sizes : List Nat) (o : Outcome) : Prop :=
  match reconcileLengths lens with
  | .ok _ => ∀ e, o.result = .error e → e.cause.sizes? = none
  | .error _ => ∃ e, o.result = .error e ∧ e.cause = .sizes sizes

namespace Outcome

variable {lens sizes : List Nat} {o : Outcome}

theorem ChecksLengths.within (h : o.ChecksLengths lens sizes) (f : Frame) :
    (o.within f).ChecksLengths lens sizes := by
  unfold ChecksLengths at h ⊢
  cases hrec : reconcileLengths lens with
  | ok n =>
    rw [hrec] at h
    intro e he
    obtain ⟨e', he', rfl⟩ := escaping_eq_error_iff.mp he
    exact h e' he'
  | error cause =>
    rw [hrec] at h
    obtain ⟨e, he, hcause⟩ := h
    exact ⟨e.within f, by rw [result_within, he]; rfl, hcause⟩

theorem ChecksLengths.exists_iff (h : o.ChecksLengths lens sizes) :
    (∃ e ns, o.result = .error e ∧ e.cause = .sizes ns) ↔
      ∃ n ∈ lens, n ≠ 1 ∧ n ≠ greatest lens := by
  have hiff : (∃ n ∈ lens, n ≠ 1 ∧ n ≠ greatest lens) ↔ ∀ n, reconcileLengths lens ≠ .ok n := by
    simp only [ne_eq, reconcileLengths_eq_ok_iff_greatest, not_and]
    constructor
    · rintro ⟨n, hn, hone, hmax⟩ _ rfl hall
      exact (hall n hn).elim hone hmax
    · intro hnot
      by_contra hnone
      refine hnot _ rfl fun n hn => ?_
      by_contra hn'
      exact hnone ⟨n, hn, not_or.mp hn'⟩
  rw [hiff]
  unfold ChecksLengths at h
  cases hrec : reconcileLengths lens with
  | ok n =>
    rw [hrec] at h
    constructor
    · rintro ⟨e, ns, he, hcause⟩
      have hnone := h e he
      rw [hcause] at hnone
      cases hnone
    · intro hnot
      exact absurd rfl (hnot n)
  | error cause =>
    rw [hrec] at h
    obtain ⟨e, he, hcause⟩ := h
    exact ⟨fun _ _ hok => (by cases hok), fun _ => ⟨e, _, he, hcause⟩⟩

theorem ChecksLengths.sizes_eq (h : o.ChecksLengths lens sizes) {e : DispatchError} {ns : List Nat}
    (he : o.result = .error e) (hcause : e.cause = .sizes ns) : ns = sizes := by
  unfold ChecksLengths at h
  cases hrec : reconcileLengths lens with
  | ok n =>
    rw [hrec] at h
    have hnone := h e he
    rw [hcause] at hnone
    cases hnone
  | error cause =>
    rw [hrec] at h
    obtain ⟨e', he', hcause'⟩ := h
    cases he.symm.trans he'
    exact Cause.sizes.inj (hcause.symm.trans hcause')

end Outcome

namespace Registry

variable {r : Registry} {self : Dispatcher} {c : Call} {held vs : List Value} {site : Site}
  {m : Descriptor} {info : TypeInfo} {kind : Kind} {extent : Extent} {lens : List Nat}
  (ht : r.types.Regular) (hc : c.Proper) (hd : r.types.Registered (.flat info kind extent))
  (hm : r.types.Registered m) (htarget : c.Targets (.flat info kind extent) m)
  (hvs : ∀ v ∈ vs, (Descriptor.flat info kind extent).IsInstance v)
  (hlen : vs.length = c.op.arity) (hl : Lengths vs lens)

include hc hlen in
theorem sizes?_of_onElements (hself : self.EvaluatesScalars) {s : Site} {ss : List Scalar}
    (hss : ss.length = vs.length) {e : DispatchError}
    (he : self.onElements r.types s c.inner (ss.map .scalar) = .error e) :
    e.cause.sizes? = none := by
  rw [hself.onElements_eq (hc.inner.takes (hss.trans hlen))] at he
  cases heval : Scalar.eval c.inner.op c.inner.slot ss with
  | ok s =>
    rw [heval] at he
    cases he
  | error cause =>
    rw [heval] at he
    cases he
    exact (Scalar.ofScalars_of_eval heval).sizes?_eq

include ht hc hd hm htarget hvs hlen hl

theorem loopCall_checksLengths (hself : self.EvaluatesScalars) :
    (r.loopCall self c held site (.flat info kind extent) m vs vs).ChecksLengths lens lens := by
  have harr : r.Arrays vs := fun v hv => ⟨_, hd, hvs v hv⟩
  have hcount : vs.length = lens.length := hl.length_eq
  have hne : lens ≠ [] := by
    have hpos := c.op.arity_pos
    exact List.ne_nil_of_length_pos (by omega)
  unfold loopCall
  rw [loopParts_of_arrays ht harr hl (counterpart_eq hc)]
  unfold Outcome.ChecksLengths
  cases hrec : reconcileLengths lens with
  | error cause =>
    obtain ⟨rfl, _⟩ := (reconcileLengths_eq_error_iff hne).mp hrec
    exact ⟨_, rfl, rfl⟩
  | ok n =>
    intro e he
    -- in new storage or in that of operand 0, the loop reads flat operands and writes flat storage
    have hrun : ∀ (sources : List (Option Value)) p k q, sources.length = vs.length →
        (∀ v, some v ∈ sources → v ∈ vs) → p.form = .flat k →
        (Loop.mk r.types m (fun site args => self.onElements r.types site c.inner args)
          (sources.zip lens) (site.child 4)).run p n = (.error e, q) → e.cause.sizes? = none := by
      intro sources p k q hsources hmem hp hrun
      refine Loop.sizes?_of_run ⟨ht, ⟨info, kind, extent, hd, fun v len hv => ?_⟩,
        ht.access_of_registered hm⟩ (fun s ss e hss he => ?_) hp hrun
      · exact hvs v (hmem v (List.of_mem_zip hv).1)
      · refine sizes?_of_onElements hc hlen hself (hss.trans ?_) he
        rw [List.length_zip, hsources, hcount, Nat.min_self]
    simp only [Except.map] at he
    split at he
    · rename_i a _ hmov _
      obtain ⟨q, hq⟩ := Loop.run_of_intoOperand_eq_error he
      have ha := hvs _ (List.mem_of_head? (Call.movable?_eq_some_iff.mp hmov).2.1)
      refine hrun _ _ _ _ (List.length_map _) (fun v hv => ?_) ha.form_eq hq
      obtain ⟨u, hu, huv⟩ := List.mem_map.mp hv
      split at huv
      · cases huv
      · exact Option.some.inj huv ▸ hu
    · obtain ⟨q, hq⟩ := Loop.run_of_intoNew_eq_error he
      obtain ⟨info', extent', rfl⟩ := htarget.exists_flat
      refine hrun _ _ _ _ (List.length_map _) (fun v hv => ?_) (Descriptor.form_alloc _ _) hq
      obtain ⟨u, hu, huv⟩ := List.mem_map.mp hv
      exact Option.some.inj huv ▸ hu

omit ht in
theorem kernel_checksLengths {kernel : Kernel} (hselect : c.op ≠ .select)
    (hevaluates : kernel.Evaluates c.op kind (if c.op = .richcmp then .bool else kind))
    (hnames : kernel.Names c.op kind) (key : TypeKey) :
    Outcome.ChecksLengths lens ((OpEntry.native kernel).namedLengths c.op lens)
      (match payloads vs >>= kernel.run c.op c.slot with
        | .ok p => finish held vs (c.movable? vs vs) ⟨site, key, p⟩
        | .error cause => .failedBy vs cause) := by
  have hlt : c.inner.mode.representative < vs.length := (hc.inner.takes hlen).representative_lt
  have h : r.Prepared c.inner (.flat info kind extent) m vs vs :=
    prepared_of_fitting hc.inner c.inner_mode_ne hd hm (Call.Targets.inner_iff.mpr htarget)
      (.of_instances hd hvs) hlt
  have hresult := kernelResult h hselect hlen hevaluates hl
  unfold Outcome.ChecksLengths
  change KernelResult c.inner vs lens _ (payloads vs >>= kernel.run c.op c.slot) at hresult
  generalize hx : (payloads vs >>= kernel.run c.op c.slot) = x at hresult
  cases hresult with
  | sizes sizes hrec =>
    rw [hrec]
    obtain ⟨ps, hps, hrun⟩ : ∃ ps, payloads vs = .ok ps ∧
        kernel.run c.op c.slot ps = .error (.sizes sizes) := by
      obtain ⟨ps, hps⟩ := exists_payloads fun u hu => by
        obtain ⟨a, rfl, _⟩ := hvs u hu
        rfl
      rw [hps] at hx
      exact ⟨ps, hps, hx⟩
    have hforms : ∀ p ∈ ps, p.form = .flat kind := by
      intro p hp
      obtain ⟨u, hu, a, rfl, rfl⟩ := exists_mem_of_forall₂ (forall₂_of_payloads hps) hp
      exact (hvs _ hu).form_eq
    have hcount : ps.length = c.op.arity := (forall₂_of_payloads hps).length_eq.symm.trans hlen
    cases (lengths_of_payloads hps).unique hl
    rw [hnames c.slot ps sizes hcount hforms hrun]
    exact ⟨_, rfl, rfl⟩
  | values b hkind hrec hvalue =>
    rw [hrec]
    intro e he
    exact absurd he (finish_result_ne _ _ e)

section Apply

variable (hlawful : r.types.Lawful) (hordered : info.flags.forbidsOrdering = false)
  (hop : info.ops c.op ≠ .unsupported)
  (hkernel : ∀ kernel, info.ops c.op = .native kernel →
    kernel.Evaluates c.op kind (if c.op = .richcmp then .bool else kind) ∧
      kernel.Names c.op kind)

include hlawful hordered hop hkernel

theorem arrayCall_checksLengths (hself : self.EvaluatesScalars) :
    (r.arrayCall self c held site (.flat info kind extent) vs vs).ChecksLengths lens
      ((info.ops c.op).namedLengths c.op lens) := by
  have hunordered : c.isUnordered (.flat info kind extent) = false := by
    unfold Call.isUnordered
    split
    · exact Bool.and_eq_false_iff.mpr (.inr hordered)
    · rfl
  have hdesc : r.types.descriptor (c.resultType (.flat info kind extent)) = .ok m := by
    rw [TypeTable.descriptor_eq_ok_iff, ← htarget.key_eq]
    exact hm
  unfold arrayCall
  simp only [hunordered, Bool.false_eq_true, if_false, hdesc, Descriptor.op, Descriptor.info]
  cases hentry : info.ops c.op with
  | unsupported => exact absurd hentry hop
  | native kernel =>
    obtain ⟨hevaluates, hnames⟩ := hkernel kernel hentry
    have hfit := hlawful.kernelsFit _ (TypeTable.Regular.mem_of_registered hd)
    exact kernel_checksLengths hc hd hm htarget hvs hlen hl (hfit _ _ hentry).1 hevaluates hnames
      m.key
  | generic => exact loopCall_checksLengths ht hc hd hm htarget hvs hlen hl hself

omit hm htarget in
/-- A call on instances of a flat type fails over lengths exactly if these do not agree, and names
what the implementation of the operation does. -/
theorem apply_checksLengths (held : List Value) (site : Site) :
    (r.apply c held site vs).ChecksLengths lens ((info.ops c.op).namedLengths c.op lens) := by
  obtain ⟨k, hk⟩ := r.exists_apply_eq vs
  obtain ⟨m, hm, htarget⟩ := Call.exists_targets hlawful c hd
  rw [hk, step_of_instances hd hvs (hc.takes hlen)]
  exact (arrayCall_checksLengths ht hc hd hm htarget hvs hlen hl hlawful hordered hop hkernel
    (evaluatesScalars_step r _)).within _

end Apply

end Registry

end ArrayDispatch
