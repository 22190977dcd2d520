import ArrayDispatch.Proofs.Dispatch.WellFormed

/-!
Calls with another number of operands than their operation has. Scalars refuse them and so do
kernels, but nothing else looks at the number: a loop that reaches neither is run to its end.
-/

namespace ArrayDispatch

theorem Scalar.eval_of_length_ne {op : Op} {ss : List Scalar} (h : ss.length ≠ op.arity)
    (slot : Slot) : Scalar.eval op slot ss = .error (.arity op op.arity ss.length) := by
  unfold eval
  exact if_pos h

theorem Kernel.run_of_length_ne {kernel : Kernel} {ps : List Payload}
    (h : ps.length ≠ kernel.arity) (op : Op) (slot : Slot) :
    kernel.run op slot ps = .error (.arity op kernel.arity ps.length) := by
  unfold run
  split
  case h_5 => rfl
  all_goals exact absurd rfl h

namespace Call

/-- A call that is not for masks, by the selector of its operation. -/
inductive Direct : Call → Prop
  | method {mode : Mode} {op : Op} (hm : mode = .normal ∨ mode = .inPlace) (hop : op ≠ .richcmp) :
      Direct ⟨mode, op, .method⟩
  | compare {mode : Mode} (hm : mode = .normal ∨ mode = .inPlace) (cmp : Comparison) :
      Direct ⟨mode, .richcmp, .compare cmp⟩

/-- A call admits this number of operands, but its operation has another. -/
structure Miscounts (c : Call) (n : Nat) : Prop where
  pos : 0 < n
  le_three : n ≤ 3
  ne_arity : n ≠ c.op.arity

/-- What a direct call is on elements: comparisons ask for masks there. -/
def onElements (c : Call) : Call :=
  if c.op = .richcmp then ⟨.richCompare, c.op, c.slot⟩ else c.inner

/-- The type takes a call position by position. -/
def Loops (c : Call) (d : Descriptor) : Prop :=
  c.isUnordered d = false ∧ d.op c.op = .generic

variable {c : Call}

theorem Miscounts.inner {n : Nat} (h : c.Miscounts n) : c.inner.Miscounts n :=
  ⟨h.pos, h.le_three, h.ne_arity⟩

namespace Direct

theorem mode_cases (h : c.Direct) : c.mode = .normal ∨ c.mode = .inPlace := by
  cases h with
  | method hm hop => exact hm
  | compare hm cmp => exact hm

theorem inner (h : c.Direct) : c.inner.Direct := by
  cases h with
  | method hm hop => exact .method (.inl (by rcases hm with rfl | rfl <;> rfl)) hop
  | compare hm cmp => exact .compare (.inl (by rcases hm with rfl | rfl <;> rfl)) cmp

theorem takes (h : c.Direct) {n : Nat} (hn : c.Miscounts n) : c.Takes n := by
  refine takes_of_operandCount? ?_ hn.pos hn.le_three
  rcases h.mode_cases with hm | hm <;> rw [hm] <;> rfl

theorem counterpart_eq (h : c.Direct) (r : Registry) (self : Dispatcher) :
    r.counterpart self c = .ok fun site args => self.onElements r.types site c.onElements args := by
  cases h with
  | method hm hop =>
    unfold Registry.counterpart onElements
    rw [if_neg hop]
    rfl
  | compare hm cmp => rfl

end Direct

theorem op_onElements (c : Call) : c.onElements.op = c.op := by
  unfold onElements
  split <;> rfl

theorem onElements_eq (hm : c.mode = .normal) (hop : c.op ≠ .richcmp) : c.onElements = c := by
  rw [onElements, if_neg hop, inner_eq (by rw [hm]; decide)]

theorem loops_inner {d : Descriptor} : c.inner.Loops d ↔ c.Loops d := Iff.rfl

end Call

/-- A call on instances of a type comes to its end without reaching a scalar or a kernel: the type
takes it position by position, and there is no position, or the elements at each are arrays for
which the same is true. Elements are compared for masks, and these calls count their operands. -/
def Descriptor.Idle (c : Call) : Descriptor → List Value → Prop
  | flat info kind extent, us => c.Loops (flat info kind extent) ∧ ∀ u ∈ us, u.length? = some 0
  | nested info element extent, us => c.Loops (nested info element extent) ∧
      ∃ lens n, Lengths us lens ∧ Reconciles lens n ∧
        ∀ i < n, c.op ≠ .richcmp ∧ ∃ ws, Elements us i ws ∧ element.Idle c ws
  | tensor _ backing, us => ∃ shapes dst arrays, Shapes us shapes ∧
      Shape.reconcile shapes = .ok dst ∧ Shape.Fits dst ∧
      List.Forall₂ (Value.Expanded dst) us arrays ∧ backing.Idle c arrays

theorem Descriptor.idle_inner {c : Call} {d : Descriptor} {us : List Value} :
    d.Idle c.inner us ↔ d.Idle c us := by
  induction d generalizing us with
  | flat info kind extent => exact Iff.rfl
  | nested info element extent ih => simp only [Idle, ih, Call.loops_inner]; rfl
  | tensor info backing ih => simp only [Idle, ih]

def OpEntry.arity? : OpEntry → Option Nat
  | native kernel => some kernel.arity
  | _ => none

/-- The kernels of a type have the number of operands of their operations. -/
def Descriptor.CountsOperands (d : Descriptor) : Prop :=
  ∀ op ∈ Op.table, ∀ n ∈ (d.op op).arity?, n = op.arity

instance (d : Descriptor) : Decidable d.CountsOperands :=
  inferInstanceAs (Decidable (∀ op ∈ Op.table, ∀ n ∈ (d.op op).arity?, n = op.arity))

theorem Descriptor.CountsOperands.arity_eq {d : Descriptor} (h : d.CountsOperands) {op : Op}
    {kernel : Kernel} (hop : d.op op = .native kernel) : kernel.arity = op.arity :=
  h op op.mem_table _ (by rw [hop]; rfl)

theorem Outcome.Agrees.returns_iff {o o' : Outcome} (h : o.Agrees o') :
    (∃ w, o.result = .ok (.value w)) ↔ ∃ w, o'.result = .ok (.value w) := by
  unfold Agrees at h
  rcases ho : o.result with e | ⟨v | _⟩ <;> rcases ho' : o'.result with e' | ⟨v' | _⟩ <;>
    rw [ho, ho'] at h <;> first | exact h.elim | simp

/-- A dispatcher returns no value for a call on these operands. -/
def Dispatcher.Refuses (self : Dispatcher) (c : Call) (us : List Value) : Prop :=
  ∀ held site w, (self c held site us).result ≠ .ok (.value w)

theorem Dispatcher.Refuses.onElements {self : Dispatcher} {c : Call} {us : List Value}
    (h : self.Refuses c us) (t : TypeTable) (site : Site) (v : Value) :
    self.onElements t site c us ≠ .ok v :=
  fun hv => h us site v (Dispatcher.onElements_eq_ok_iff.mp hv)

namespace Registry

variable {r : Registry} {self : Dispatcher} {c : Call} {held us vs : List Value} {site : Site}
  {d : Descriptor} {w : Value}

theorem refuses_scalars (r : Registry) (k : Nat) {c : Call} {ss : List Scalar}
    (h : ss.length ≠ c.op.arity) : (r.applyWithin k).Refuses c (ss.map .scalar) := by
  intro held site w hw
  cases k with
  | zero => cases hw
  | succ k =>
    change (r.step (r.applyWithin k) c held site (ss.map .scalar)).result = _ at hw
    by_cases htakes : c.Takes ss.length
    · obtain ⟨s, hs, _⟩ := (step_scalars_eq_ok_iff htakes).mp hw
      rw [Scalar.eval_of_length_ne h] at hs
      cases hs
    · rw [step_of_not_takes (by simpa using htakes)] at hw
      cases hw

/-- Elements are compared for masks, which takes two operands. -/
theorem refuses_onElements (r : Registry) (k : Nat) (hop : c.op = .richcmp)
    (h : us.length ≠ c.op.arity) : (r.applyWithin k).Refuses c.onElements us := by
  rw [Call.onElements, if_pos hop]
  intro held site w hw
  cases k with
  | zero => cases hw
  | succ k =>
    change (r.step (r.applyWithin k) _ held site us).result = _ at hw
    rw [hop] at h
    rw [step_of_not_takes fun htakes => h (htakes.count 2 rfl).symm] at hw
    cases hw

theorem refuses_items {info : TypeInfo} {kind : Kind} {extent : Extent}
    (hus : ∀ u ∈ us, (Descriptor.flat info kind extent).IsInstance u) {i : Nat} {ws : List Value}
    (hws : Elements us i ws) (h : us.length ≠ c.op.arity) (k : Nat) :
    (r.applyWithin k).Refuses c.onElements ws := by
  obtain ⟨ss, rfl⟩ := exists_scalars_of_hasItem (hasItem_of_elements hus hws)
  refine refuses_scalars r k ?_
  rwa [Call.op_onElements, ← List.length_map (f := Value.scalar), ← hws.length_eq]

/-- The loop of a direct call on operands of the type `d`. -/
def directLoop (r : Registry) (self : Dispatcher) (c : Call) (d : Descriptor) (us : List Value)
    (lens : List Nat) (site : Site) : Loop where
  types := r.types
  target := d
  counterpart := fun site args => self.onElements r.types site c.onElements args
  sources := (us.map some).zip lens
  site := site.child 4

section Instances

variable (ht : r.types.Regular) (hc : c.Direct) (hm : c.mode = .normal)
  (hd : r.types.Registered d) (hus : ∀ u ∈ us, d.IsInstance u) (hn : c.Miscounts us.length)

include ht hc hm hd hus hn

theorem loopCall_eq_ok_iff :
    (r.loopCall self c held site d d us vs).result = .ok (.value w) ↔
      ∃ lens n q, Lengths us lens ∧ Reconciles lens n ∧
        (r.directLoop self c d us lens site).run (d.alloc site n) n = (.ok (), q) ∧
        w = .array ⟨site, d.key, q⟩ := by
  have harr : r.Arrays us := fun u hu => ⟨d, hd, hus u hu⟩
  obtain ⟨lens, hl⟩ := exists_lengths harr
  have hlens : lens ≠ [] := by
    rintro rfl
    cases hl
    exact absurd hn.pos (Nat.lt_irrefl 0)
  rw [loopCall_of_arrays ht harr hl (hc.counterpart_eq r self)
    (Call.movable?_eq_none (by rw [hm]; decide))]
  cases hrec : reconcileLengths lens with
  | error cause =>
    refine ⟨fun h => (by cases h), ?_⟩
    rintro ⟨lens', n, q, hl', hr, _⟩
    cases hl.unique hl'
    rw [(reconcileLengths_eq_ok_iff_reconciles hlens).mpr hr] at hrec
    cases hrec
  | ok n =>
    have hr := (reconcileLengths_eq_ok_iff_reconciles hlens).mp hrec
    change ((r.directLoop self c d us lens site).intoNew held site n none vs).result = _ ↔ _
    constructor
    · intro h
      unfold Loop.intoNew at h
      split at h
      · rename_i q hrun
        cases h
        exact ⟨lens, n, q, hl, hr, hrun, rfl⟩
      · cases h
    · rintro ⟨lens', n', q, hl', hr', hrun, rfl⟩
      cases hl.unique hl'
      cases hr.unique hr'
      rw [Loop.intoNew_of_run_eq_ok hrun]
      rfl

variable (hcount : d.CountsOperands)

include hcount

omit ht hc hus in
/-- Kernels refuse the call, so what returns a value is the loop. -/
theorem arrayCall_eq_ok_iff :
    (r.arrayCall self c held site d us vs).result = .ok (.value w) ↔
      c.Loops d ∧ (r.loopCall self c held site d d us vs).result = .ok (.value w) := by
  have htarget : r.types.descriptor (c.resultType d) = .ok d := by
    rw [Call.resultType, if_neg (by rw [hm]; decide)]
    exact TypeTable.descriptor_eq_ok_iff.mpr hd
  unfold arrayCall Call.Loops
  cases hu : c.isUnordered d with
  | true => simp [Outcome.failedBy, Outcome.failed]
  | false =>
    simp only [htarget]
    cases hop : d.op c.op with
    | unsupported => simp [Outcome.unsupported]
    | generic => simp
    | native kernel =>
      have hrefused : ∃ cause, (payloads us >>= kernel.run c.op c.slot) = .error cause := by
        cases hps : payloads us with
        | error cause => exact ⟨cause, rfl⟩
        | ok ps =>
          have hcount : ps.length ≠ kernel.arity := by
            rw [← (forall₂_of_payloads hps).length_eq, hcount.arity_eq hop]
            exact hn.ne_arity
          exact ⟨_, Kernel.run_of_length_ne hcount c.op c.slot⟩
      obtain ⟨cause, hcause⟩ := hrefused
      simp [hcause, Outcome.failedBy, Outcome.failed]

section Plain

variable (hp : d.isTensor = false)

include hp

theorem arrayCall_returns_iff :
    (∃ w, (r.arrayCall self c held site d us vs).result = .ok (.value w)) ↔
      c.Loops d ∧ ∃ lens n, Lengths us lens ∧ Reconciles lens n ∧
        ∀ i, i < n → ∃ ws v w, Elements us i ws ∧
          self.onElements r.types ((site.child 4).child i) c.onElements ws = .ok v ∧
          d.form.admit? v = some w := by
  have harr : r.Arrays us := fun u hu => ⟨d, hd, hus u hu⟩
  have hruns : ∀ lens n, Lengths us lens →
      ((∃ q, (r.directLoop self c d us lens site).run (d.alloc site n) n = (.ok (), q)) ↔
        ∀ i, i < n → ∃ ws v w, Elements us i ws ∧
          self.onElements r.types ((site.child 4).child i) c.onElements ws = .ok v ∧
          d.form.admit? v = some w) := by
    intro lens n hl
    have hreads : (r.directLoop self c d us lens site).Reads us n (d.alloc site n) :=
      reads_of_arrays ht harr hl (ht.access_of_registered hd) _ _ _ _
    rw [hreads.exists_run_iff (Nat.le_of_eq (d.length_alloc hp site n).symm), d.form_alloc]
    exact Iff.rfl
  simp only [arrayCall_eq_ok_iff hm hd hn hcount, loopCall_eq_ok_iff ht hc hm hd hus hn]
  constructor
  · rintro ⟨w, hloops, lens, n, q, hl, hr, hrun, _⟩
    exact ⟨hloops, lens, n, hl, hr, (hruns lens n hl).mp ⟨q, hrun⟩⟩
  · rintro ⟨hloops, lens, n, hl, hr, hall⟩
    obtain ⟨q, hrun⟩ := (hruns lens n hl).mpr hall
    exact ⟨_, hloops, lens, n, q, hl, hr, hrun, rfl⟩

end Plain

end Instances

/-! ## Calls on plain arrays -/

theorem applyWithin_eq_ok_iff (hc : c.Direct) (hd : r.types.Registered d)
    (hp : d.isTensor = false) (hus : ∀ u ∈ us, d.IsInstance u) (hn : c.Miscounts us.length)
    (k : Nat) :
    (r.applyWithin (k + 1) c held site us).result = .ok (.value w) ↔
      (r.arrayCall (r.applyWithin k) c held site d us us).result = .ok (.value w) := by
  change (r.step (r.applyWithin k) c held site us).result = _ ↔ _
  rw [step_of_instances hd hus (hc.takes hn), hp, if_neg Bool.false_ne_true,
    Outcome.result_within, escaping_eq_ok_iff]

section Counted

variable (ht : r.types.Regular) (hcount : ∀ d ∈ r.types.types, d.CountsOperands) (hc : c.Direct)
  (hm : c.mode = .normal)

include ht hcount hc hm

/-- A call on plain arrays with another number of operands returns a value if it is idle. -/
theorem arrayCall_returns_iff_idle (hd : r.types.Registered d) (hp : d.isTensor = false)
    (hus : ∀ u ∈ us, d.IsInstance u) (hn : c.Miscounts us.length) {k : Nat}
    (hk : d.ndim ≤ k + 1) :
    (∃ w, (r.arrayCall (r.applyWithin k) c held site d us vs).result = .ok (.value w)) ↔
      d.Idle c us := by
  induction d generalizing k held site us vs with
  | flat info kind extent =>
    have hne : us ≠ [] := List.ne_nil_of_length_pos hn.pos
    rw [arrayCall_returns_iff ht hc hm hd hus hn
      (hcount _ (TypeTable.Regular.mem_of_registered hd)) hp]
    constructor
    · rintro ⟨hloops, lens, n, hl, hr, hall⟩
      obtain rfl : n = 0 := by
        by_contra hzero
        obtain ⟨ws, v, w, hws, hv, _⟩ := hall 0 (Nat.pos_of_ne_zero hzero)
        exact (refuses_items hus hws hn.ne_arity k).onElements _ _ v hv
      exact ⟨hloops, (reconciles_zero_iff hl hne).mp hr⟩
    · rintro ⟨hloops, hzero⟩
      obtain ⟨lens, hl⟩ := exists_lengths (r := r) fun u hu => ⟨_, hd, hus u hu⟩
      exact ⟨hloops, lens, 0, hl, (reconciles_zero_iff hl hne).mpr hzero, fun i hi => by omega⟩
  | nested info element extent ih =>
    have hde := ht.registered_component hd rfl
    have hpe := ht.component_isTensor hd rfl
    obtain ⟨k, rfl⟩ : ∃ k', k = k' + 1 := by
      have hdim := element.ndim_pos
      rw [Descriptor.ndim] at hk
      exact ⟨k - 1, by omega⟩
    -- where elements are not compared, the calls on them are idle themselves
    have helements : ∀ {i ws s}, Elements us i ws → c.op ≠ .richcmp →
        ((∃ v, (r.applyWithin (k + 1)).onElements r.types s c.onElements ws = .ok v) ↔
          element.Idle c ws) := by
      intro i ws s hws hop
      have hnws : c.Miscounts ws.length := hws.length_eq ▸ hn
      have hitems := hasItem_of_elements hus hws
      have hidle : (∃ v, (r.arrayCall (r.applyWithin k) c ws s element ws ws).result =
          .ok (.value v)) ↔ element.Idle c ws :=
        ih hde hpe hitems hnws (Nat.le_of_succ_le_succ hk)
      rw [Call.onElements_eq hm hop]
      exact (exists_congr fun v => Dispatcher.onElements_eq_ok_iff.trans
        (applyWithin_eq_ok_iff hc hde hpe hitems hnws k)).trans hidle
    rw [arrayCall_returns_iff ht hc hm hd hus hn
      (hcount _ (TypeTable.Regular.mem_of_registered hd)) hp]
    constructor
    · rintro ⟨hloops, lens, n, hl, hr, hall⟩
      refine ⟨hloops, lens, n, hl, hr, fun i hi => ?_⟩
      obtain ⟨ws, v, w, hws, hv, _⟩ := hall i hi
      have hop : c.op ≠ .richcmp := fun hop =>
        (refuses_onElements r _ hop (hws.length_eq ▸ hn.ne_arity)).onElements _ _ v hv
      exact ⟨hop, ws, hws, (helements hws hop).mp ⟨v, hv⟩⟩
    · rintro ⟨hloops, lens, n, hl, hr, hall⟩
      refine ⟨hloops, lens, n, hl, hr, fun i hi => ?_⟩
      obtain ⟨hop, ws, hws, hidle⟩ := hall i hi
      obtain ⟨v, hv⟩ := (helements hws hop).mpr hidle
      exact ⟨ws, v, v, hws, hv, rfl⟩
  | tensor info backing => cases hp

theorem exists_array_of_applyWithin (hd : r.types.Registered d) (hp : d.isTensor = false)
    (hus : ∀ u ∈ us, d.IsInstance u) (hn : c.Miscounts us.length) {k : Nat}
    (hw : (r.applyWithin k c held site us).result = .ok (.value w)) : ∃ a, w = .array a := by
  cases k with
  | zero => cases hw
  | succ k =>
    rw [applyWithin_eq_ok_iff hc hd hp hus hn,
      arrayCall_eq_ok_iff hm hd hn (hcount d (TypeTable.Regular.mem_of_registered hd)),
      loopCall_eq_ok_iff ht hc hm hd hus hn] at hw
    obtain ⟨_, _, _, _, _, _, _, rfl⟩ := hw
    exact ⟨_, rfl⟩

end Counted

/-! ## Calls on tensors -/

/-- Whether a call is idle does not depend on where the backing arrays are expanded. -/
theorem idle_of_expanded {shapes : List (List Nat)} {dst : List Nat} {xs ys : List Value}
    (hp : d.isTensor = false) (hne : shapes ≠ []) (hs : Shapes us shapes)
    (hrec : Shape.reconcile shapes = .ok dst) (hx : List.Forall₂ (Value.Expanded dst) us xs)
    (hy : List.Forall₂ (Value.Expanded dst) us ys) (h : d.Idle c xs) : d.Idle c ys := by
  have hlx := lengths_of_expanded hx hs
  have hly := lengths_of_expanded hy hs
  have hr := Shape.reconciles_expandedLengths hrec hne
  cases d with
  | flat info kind extent =>
    obtain ⟨hloops, hzero⟩ := h
    have hxs : xs ≠ [] := by
      rintro rfl
      cases hx
      cases hs
      exact hne rfl
    have hys : ys ≠ [] := by
      rintro rfl
      cases hy
      cases hs
      exact hne rfl
    have hsize := hr.unique ((reconciles_zero_iff hlx hxs).mpr hzero)
    exact ⟨hloops, (reconciles_zero_iff hly hys).mp (hsize ▸ hr)⟩
  | nested info element extent =>
    obtain ⟨hloops, lens, n, hl, hr', hall⟩ := h
    cases hl.unique hlx
    cases hr'.unique hr
    refine ⟨hloops, _, _, hly, hr, fun i hi => ?_⟩
    obtain ⟨hop, ws, hws, hidle⟩ := hall i hi
    obtain ⟨index, hindex, rfl⟩ := Shape.exists_offset_eq hi
    have hval := (elements_expanded_iff hx hindex).mp hws
    exact ⟨hop, ws, (elements_expanded_iff hy hindex).mpr hval, hidle⟩
  | tensor info backing => cases hp

section Counted

variable (ht : r.types.Regular) (hcount : ∀ d ∈ r.types.types, d.CountsOperands) (hc : c.Direct)
  (hm : c.mode = .normal)

include ht hcount hc hm

theorem tensorCall_returns_iff_idle {info : TypeInfo} {backing m : Descriptor}
    (h : r.Arranged c (.tensor info backing) m us vs) (hn : c.Miscounts us.length) {k : Nat}
    (hk : backing.ndim ≤ k) :
    (∃ w, (r.tensorCall (r.applyWithin k) c held site us vs).result = .ok (.value w)) ↔
      (Descriptor.tensor info backing).Idle c us := by
  have hd := h.registered
  have hdb := ht.registered_component hd rfl
  have hpb := ht.component_isTensor hd rfl
  obtain ⟨shapes, hs⟩ := exists_shapes (h.fitting.tensors hd)
  have hne : shapes ≠ [] := by
    rintro rfl
    cases hs
    exact absurd hn.pos (Nat.lt_irrefl 0)
  cases hrec : Shape.reconcile shapes with
  | error cause =>
    rw [h.tensorCall_of_reconcile_eq_error ht hs hrec]
    refine ⟨fun ⟨w, hw⟩ => (by cases hw), ?_⟩
    rintro ⟨shapes', dst, _, hs', hrec', _⟩
    cases hs.unique hs'
    rw [hrec'] at hrec
    cases hrec
  | ok dst =>
    by_cases hfits : Shape.Fits dst
    swap
    · rw [h.tensorCall_of_not_fits ht hs hrec hfits]
      refine ⟨fun ⟨w, hw⟩ => (by cases hw), ?_⟩
      rintro ⟨shapes', dst', _, hs', hrec', hfits', _⟩
      cases hs.unique hs'
      cases hrec.symm.trans hrec'
      exact absurd hfits' hfits
    obtain ⟨arrays, hx, hcall⟩ :=
      h.exists_tensorCall_eq ht hs hrec hfits (r.applyWithin k) held site
    obtain ⟨k, rfl⟩ : ∃ k', k = k' + 1 := by
      have hdim := backing.ndim_pos
      exact ⟨k - 1, by omega⟩
    have hi := isInstance_of_expanded ht hd (h.fitting.isInstance (by rw [hm]; decide)) hx
    have hnx : c.Miscounts arrays.length := hx.length_eq ▸ hn
    have hbacking : (∃ w, (r.arrayCall (r.applyWithin k) c [] (site.child 3) backing arrays
        arrays).result = .ok (.value w)) ↔ backing.Idle c arrays :=
      arrayCall_returns_iff_idle ht hcount hc hm hdb hpb hi hnx hk
    rw [hcall, Call.inner_eq (by rw [hm]; decide)]
    constructor
    · rintro ⟨w, hw⟩
      refine ⟨shapes, dst, arrays, hs, hrec, hfits, hx, hbacking.mp ?_⟩
      rcases hres : (r.applyWithin (k + 1) c [] (site.child 3) arrays).result with e | ⟨v | _⟩
      · rw [hres] at hw
        cases hw
      · exact ⟨v, (applyWithin_eq_ok_iff hc hdb hpb hi hnx k).mp hres⟩
      · rw [hres] at hw
        cases hw
    · rintro ⟨shapes', dst', xs, hs', hrec', _, hx', hidle⟩
      cases hs.unique hs'
      cases hrec.symm.trans hrec'
      obtain ⟨w, hw⟩ := hbacking.mpr (idle_of_expanded hpb hne hs hrec hx' hx hidle)
      have hres := (applyWithin_eq_ok_iff hc hdb hpb hi hnx k).mpr hw
      obtain ⟨flat, rfl⟩ :=
        exists_array_of_applyWithin ht hcount hc hm hdb hpb hi hnx hres
      obtain ⟨b, hb, _⟩ := exists_finish_result held vs (c.movable? us vs)
        ⟨site, c.resultType (.tensor info backing), .tensor flat dst⟩
      exact ⟨_, by rw [hres]; exact hb⟩

/-! ## Calls -/

theorem resolve_returns_iff_idle {m : Descriptor} (h : r.Arranged c d m us vs)
    (hn : c.Miscounts us.length) {k : Nat} (hk : d.ndim ≤ k) :
    (∃ w, (r.resolve (r.applyWithin k) c held site us vs).result = .ok (.value w)) ↔
      d.Idle c us := by
  rw [h.resolve_eq]
  cases hp : d.isTensor with
  | false =>
    exact arrayCall_returns_iff_idle ht hcount hc hm h.registered hp
      (h.fitting.isInstance (by rw [hm]; decide)) hn (Nat.le_succ_of_le hk)
  | true =>
    cases d with
    | tensor info backing => exact tensorCall_returns_iff_idle ht hcount hc hm h hn hk
    | _ => cases hp

end Counted

/-! ## Unified operands -/

/-- The operands of a call are unified to a type on which the call is idle. -/
def Idles (r : Registry) (c : Call) (site : Site) (vs : List Value) : Prop :=
  ∃ d us, r.unified c site vs = .ok us ∧ r.types.Registered d ∧ (∀ u ∈ us, d.IsInstance u) ∧
    d.Idle c us

theorem not_idles_of_scalars (hu : r.unifier = .promote) {ss : List Scalar} (hpos : 0 < ss.length) :
    ¬r.Idles c site (ss.map .scalar) := by
  rintro ⟨d, us, hus, _, hi, _⟩
  obtain rfl := eq_of_unified_scalars hu hus
  obtain ⟨s, hs⟩ := List.exists_mem_of_length_pos hpos
  obtain ⟨a, ha, _⟩ := hi _ (List.mem_map_of_mem hs)
  cases ha

section Operands

variable (ht : r.types.Regular) (hl : r.types.Lawful) (hu : r.unifier = .promote)
  (hcount : ∀ d ∈ r.types.types, d.CountsOperands) (hc : c.Direct)
  (hvs : ∀ v ∈ vs, r.types.WellFormed v) (hh : Handles site vs) (hn : c.Miscounts vs.length)

include ht hl hu hcount hc hvs hh hn

theorem apply_returns_iff_idles_of_normal (hm : c.mode = .normal) (held : List Value) :
    (∃ w, (r.apply c held site vs).result = .ok (.value w)) ↔ r.Idles c site vs := by
  obtain ⟨k, hk⟩ := r.exists_levels_eq vs
  have htakes := hc.takes hn
  have happly : r.apply c held site vs = r.step (r.applyWithin (k + 1)) c held site vs := by
    unfold apply
    rw [hk]
    rfl
  rw [happly]
  rcases Value.exists_scalars_or_array vs with ⟨ss, rfl⟩ | ⟨a, ha⟩
  · rw [List.length_map] at hn htakes
    refine iff_of_false ?_ (not_idles_of_scalars hu hn.pos)
    rintro ⟨w, hw⟩
    obtain ⟨s, hs, _⟩ := (step_scalars_eq_ok_iff htakes).mp hw
    rw [Scalar.eval_of_length_ne hn.ne_arity] at hs
    cases hs
  · rw [step_of_isArray htakes ha]
    unfold Idles
    cases hus : r.unified c site vs with
    | error e => exact ⟨fun ⟨w, hw⟩ => (by cases hw), fun ⟨_, _, h, _⟩ => (by cases h)⟩
    | ok us =>
      obtain ⟨d, m, h⟩ := exists_arranged ht hl hu hvs hh ha htakes.representative_lt hus
      have hi := h.fitting.isInstance (by rw [hm]; decide)
      obtain ⟨_, _, hcountu⟩ := exists_unifiedTo ht hu hvs hh (by rw [hm]; decide) ha hus
      have hdim : d.ndim ≤ k + 1 := by
        have := ndim_lt_levels h.registered vs
        omega
      simp only [Outcome.result_within, escaping_eq_ok_iff]
      have hnu : c.Miscounts us.length := hcountu ▸ hn
      rw [resolve_returns_iff_idle ht hcount hc hm h hnu hdim]
      refine ⟨fun hidle => ⟨d, us, rfl, h.registered, hi, hidle⟩, ?_⟩
      rintro ⟨d', us', heq, hd', hi', hidle⟩
      cases heq
      have hmem := Call.representative_mem (hc.takes hnu)
      have hkey := Option.some.inj ((hi' _ hmem).type?.symm.trans (hi _ hmem).type?)
      rwa [← TypeTable.eq_of_key_eq h.registered hd' hkey]

/-- With another number of operands, a call returns a value if these are unified to a type on which
the call is idle. -/
theorem apply_returns_iff_idles (held : List Value) :
    (∃ w, (r.apply c held site vs).result = .ok (.value w)) ↔ r.Idles c site vs := by
  obtain ⟨mode, op, slot⟩ := c
  rcases hc.mode_cases with rfl | rfl
  · exact apply_returns_iff_idles_of_normal ht hl hu hcount hc hvs hh hn rfl held
  · have hidles : r.Idles ⟨.normal, op, slot⟩ site vs ↔ r.Idles ⟨.inPlace, op, slot⟩ site vs := by
      unfold Idles
      rw [unified_inPlace hu]
      simp only [← Descriptor.idle_inner (c := ⟨.inPlace, op, slot⟩)]
      rfl
    have hnormal : (∃ w, (r.apply ⟨.normal, op, slot⟩ held site vs).result = .ok (.value w)) ↔
        r.Idles ⟨.normal, op, slot⟩ site vs :=
      apply_returns_iff_idles_of_normal ht hl hu hcount hc.inner hvs hh hn.inner rfl held
    obtain ⟨k, hk⟩ := r.exists_apply_eq vs
    rw [← hidles, ← hnormal, hk, hk]
    exact (step_inPlace ht hu hvs hh).1.returns_iff

end Operands

end Registry

end ArrayDispatch
