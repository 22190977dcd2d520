import ArrayDispatch.Dispatch.Loop
import ArrayDispatch.Proofs.Types.Conversion
import ArrayDispatch.Proofs.Value.Element

/-!
The generic loop as a relation between what it starts from and what it leaves. At every position
it reads the operands as they were before the loop, also those that are the storage it writes.
-/

namespace ArrayDispatch

/-- What the loop reads from an operand at position `i`. -/
def Value.elementAt (v : Value) (i : Nat) : Dispatched Value :=
  match v.element? i with
  | some u => .ok u
  | none => fail (.itemAccess (if v.length? = some 1 then 0 else i))

theorem Value.elementAt_eq_ok_iff {v u : Value} {i : Nat} :
    v.elementAt i = .ok u ↔ v.element? i = some u := by
  unfold elementAt
  cases v.element? i <;> simp [fail]

namespace Loop

/-! ## Invariants of a run -/

section Run

variable {l l' : Loop} {p p' : Payload} {n : Nat}

/-- An invariant of the positions holds when a run ends, and where it fails. -/
theorem run_invariant (P : Nat → Payload → Prop) (h0 : P 0 p)
    (hstep : ∀ i q q', i < n → P i q → l.position q i = .ok q' → P (i + 1) q') :
    (∀ q, l.run p n = (.ok (), q) → P n q) ∧
      ∀ e q, l.run p n = (.error e, q) → ∃ i, i < n ∧ P i q ∧ l.position q i = .error e := by
  induction n with
  | zero =>
    refine ⟨fun q h => ?_, fun e q h => ?_⟩
    · cases h
      exact h0
    · cases h
  | succ n ih =>
    obtain ⟨hok, herr⟩ := ih fun i q q' hi => hstep i q q' (by omega)
    rw [run_succ]
    rcases hrun : l.run p n with ⟨e | u, q⟩
    · refine ⟨fun q' h => (by cases h), fun e' q' h => ?_⟩
      cases h
      obtain ⟨i, hi, hp, he⟩ := herr _ _ hrun
      exact ⟨i, by omega, hp, he⟩
    · have hq : P n q := hok q hrun
      cases hpos : l.position q n with
      | ok s =>
        simp only [hpos]
        refine ⟨fun q' h => ?_, fun e q' h => (by cases h)⟩
        cases h
        exact hstep n q s (by omega) hq hpos
      | error e =>
        simp only [hpos]
        refine ⟨fun q' h => (by cases h), fun e' q' h => ?_⟩
        cases h
        exact ⟨n, by omega, hq, hpos⟩

/-- A run over `n` positions stops at position `i`: the positions before it have left `q`, and the
error is that of position `i`. -/
structure StopsAt (l : Loop) (p : Payload) (n i : Nat) (e : DispatchError) (q : Payload) :
    Prop where
  lt : i < n
  run_prefix : l.run p i = (.ok (), q)
  position_eq : l.position q i = .error e

theorem StopsAt.run_eq {i : Nat} {e : DispatchError} {q : Payload} (h : l.StopsAt p n i e q) :
    l.run p n = (.error e, q) := by
  obtain ⟨hlt, hrun, hpos⟩ := h
  induction n with
  | zero => omega
  | succ n ih =>
    rw [run_succ]
    by_cases hn : i = n
    · subst hn
      simp [hrun, hpos]
    · simp [ih (by omega)]

/-- Two loops whose positions have matching outcomes have matching outcomes: both reach the end, or
both stop at the same position. -/
theorem run_simulation (R : Nat → Payload → Payload → Prop)
    (E : DispatchError → DispatchError → Prop) (h0 : R 0 p p')
    (hstep : ∀ i q q', i < n → R i q q' →
      (∃ s s', l.position q i = .ok s ∧ l'.position q' i = .ok s' ∧ R (i + 1) s s') ∨
        ∃ e e', l.position q i = .error e ∧ l'.position q' i = .error e' ∧ E e e') :
    (∃ q q', l.run p n = (.ok (), q) ∧ l'.run p' n = (.ok (), q') ∧ R n q q') ∨
      ∃ i e e' q q', l.StopsAt p n i e q ∧ l'.StopsAt p' n i e' q' ∧ R i q q' ∧ E e e' := by
  induction n with
  | zero => exact .inl ⟨p, p', rfl, rfl, h0⟩
  | succ n ih =>
    rcases ih fun i q q' hi => hstep i q q' (by omega) with
      ⟨q, q', hq, hq', hr⟩ | ⟨i, e, e', q, q', hs, hs', hr, he⟩
    · rcases hstep n q q' (by omega) hr with ⟨s, s', hs, hs', hr⟩ | ⟨e, e', hs, hs', he⟩
      · exact .inl ⟨s, s', by simp [run_succ, hq, hs], by simp [run_succ, hq', hs'], hr⟩
      · exact .inr ⟨n, e, e', q, q', ⟨by omega, hq, hs⟩, ⟨by omega, hq', hs'⟩, hr, he⟩
    · have hlt := hs.lt
      exact .inr ⟨i, e, e', q, q', ⟨by omega, hs.run_prefix, hs.position_eq⟩,
        ⟨by omega, hs'.run_prefix, hs'.position_eq⟩, hr, he⟩

end Run

/-! ## Arguments -/

theorem itemOf_of_argument {l : Loop} {p : Payload} {i m : Nat} {u v : Value}
    (h : l.argument p i (some u, m) = .ok v) : ∃ j, l.itemOf u j = .ok (some v) := by
  obtain ⟨item, hitem, h⟩ := bind_eq_ok_iff.mp h
  cases item with
  | none => cases h
  | some w =>
    cases h
    exact ⟨_, hitem⟩

theorem hasItem_of_itemOf {l : Loop} (ht : l.types.Regular) {d : Descriptor}
    (hd : l.types.Registered d)
    {u v : Value} (hu : d.IsInstance u) {j : Nat} (h : l.itemOf u j = .ok (some v)) :
    d.HasItem v := by
  obtain ⟨a, rfl, htype, hholds⟩ := hu
  have hget : l.types.descriptor a.type = .ok d :=
    TypeTable.descriptor_eq_ok_iff.mpr (htype ▸ hd)
  rw [itemOf, hget] at h
  have hitem : d.item? a.payload j = some v := Except.ok.inj h
  rw [Descriptor.item?, ht.access_of_registered hd] at hitem
  exact Descriptor.hasItem_of_holds hholds hitem

/-! ## Positions -/

/-- An operand and its place among the sources of a loop that fills `n` positions of `p`: the
operand itself, or the storage `p` that it holds. That has one element only if `n` is at most 1, so
its elements are read before they are written. -/
def IsSource (n : Nat) (p : Payload) (v : Value) (source : Option Value × Nat) : Prop :=
  v.length? = some source.2 ∧
    (source.1 = some v ∨
      source.1 = none ∧ (∃ a, v = .array a ∧ a.payload = p) ∧ (source.2 = 1 → n ≤ 1))

/-- The loop reads the operands `vs` while it fills `n` positions of `p`. -/
structure Reads (l : Loop) (vs : List Value) (n : Nat) (p : Payload) : Prop where
  sources : List.Forall₂ (IsSource n p) vs l.sources
  access : ∀ a, .array a ∈ vs → ∃ d, l.types.descriptor? a.type = some d ∧ d.info.access = .stock
  target : l.target.info.access = .stock

variable {l : Loop} {vs : List Value} {n : Nat} {p : Payload}

theorem Reads.mono (h : l.Reads vs n p) {k : Nat} (hk : k ≤ n) : l.Reads vs k p := by
  refine ⟨h.sources.imp fun v source hs => ⟨hs.1, ?_⟩, h.access, h.target⟩
  rcases hs.2 with hv | ⟨hnone, hobj, hone⟩
  · exact .inl hv
  · exact .inr ⟨hnone, hobj, fun h1 => Nat.le_trans hk (hone h1)⟩

/-- Where `q` holds what `p` did from position `i` on, the argument is the element of the
operand. -/
theorem argument_eq (ht : l.target.info.access = .stock) {a : Object} {source : Option Value × Nat}
    (ha : ∃ d, l.types.descriptor? a.type = some d ∧ d.info.access = .stock)
    (hs : IsSource n p (.array a) source) {i : Nat} (hi : i < n) {q : Payload}
    (hq : ∀ j, i ≤ j → q.get? j = p.get? j) :
    l.argument q i source = (Value.array a).elementAt i := by
  obtain ⟨v?, len⟩ := source
  obtain ⟨hlen, hsrc⟩ := hs
  have hlen : a.length = len := by simpa [Value.length?] using hlen
  have hitem : ∀ j, j = (if len = 1 then 0 else i) →
      (match v? with
        | some v => l.itemOf v j
        | none => (pure (l.target.item? q j) : Dispatched _)) = .ok (a.payload.get? j) := by
    intro j hj
    rcases hsrc with rfl | ⟨rfl, ⟨a', ha', hp⟩, hone⟩
    · obtain ⟨d, hd, hacc⟩ := ha
      have hget : l.types.descriptor a.type = .ok d := TypeTable.descriptor_eq_ok_iff.mpr hd
      simp only [itemOf, hget]
      change Except.ok (d.info.access.item? a.payload j) = _
      rw [hacc]
      rfl
    · cases ha'
      have hij : i ≤ j := by
        dsimp only at hone
        split at hj
        · have := hone (by assumption)
          omega
        · omega
      change Except.ok (l.target.info.access.item? q j) = _
      rw [ht, hp]
      exact congrArg Except.ok (hq j hij)
  unfold argument Value.elementAt
  simp only [Value.element?, Value.length?, hlen, Option.some.injEq]
  have h := hitem _ rfl
  cases v? with
  | some v =>
    simp only at h ⊢
    rw [h]
    rfl
  | none =>
    simp only at h ⊢
    rw [h]
    rfl

theorem Reads.arguments_eq (h : l.Reads vs n p) {i : Nat} (hi : i < n) {q : Payload}
    (hq : ∀ j, i ≤ j → q.get? j = p.get? j) :
    l.sources.mapM (l.argument q i) = vs.mapM (·.elementAt i) := by
  obtain ⟨hsrc, hacc, ht⟩ := h
  generalize l.sources = sources at hsrc
  induction hsrc with
  | nil => rfl
  | @cons v source vs sources hv _ ih =>
    obtain ⟨a, rfl⟩ : ∃ a, v = .array a := by
      cases v with
      | scalar s => cases hv.1
      | array a => exact ⟨a, rfl⟩
    rw [List.mapM_cons, List.mapM_cons, argument_eq ht (hacc a (by simp)) hv hi hq,
      ih fun b hb => hacc b (List.mem_cons_of_mem _ hb)]

/-- What the counterpart makes of the elements of the operands at one position. -/
def valueAt (l : Loop) (vs : List Value) (i : Nat) : Dispatched Value := do
  let args ← vs.mapM (·.elementAt i)
  escaping (.element i) (l.counterpart (l.site.child i) args)

theorem valueAt_eq_ok_iff {i : Nat} {v : Value} :
    l.valueAt vs i = .ok v ↔
      ∃ us, Elements vs i us ∧ l.counterpart (l.site.child i) us = .ok v := by
  unfold valueAt
  simp only [bind_eq_ok_iff, mapM_eq_ok_iff, Value.elementAt_eq_ok_iff, escaping_eq_ok_iff]
  rfl

theorem valueAt_of_elements {i : Nat} {us : List Value} (hus : Elements vs i us) :
    l.valueAt vs i = escaping (.element i) (l.counterpart (l.site.child i) us) := by
  have hargs : vs.mapM (·.elementAt i) = .ok us :=
    mapM_eq_ok_iff.mpr (hus.imp fun _ _ hv => Value.elementAt_eq_ok_iff.mpr hv)
  unfold valueAt
  rw [hargs]
  rfl

theorem Reads.position_eq (h : l.Reads vs n p) {i : Nat} (hi : i < n) {q : Payload}
    (hq : ∀ j, i ≤ j → q.get? j = p.get? j) :
    l.position q i = l.valueAt vs i >>= l.types.store l.target q i := by
  unfold position valueAt
  rw [h.arguments_eq hi hq]
  cases vs.mapM (·.elementAt i) <;> rfl

theorem Reads.position_eq_ok_iff (h : l.Reads vs n p) {i : Nat} (hi : i < n) {q s : Payload}
    (hq : ∀ j, i ≤ j → q.get? j = p.get? j) :
    l.position q i = .ok s ↔
      ∃ us v, Elements vs i us ∧ l.counterpart (l.site.child i) us = .ok v ∧ q.set i v = .ok s := by
  rw [h.position_eq hi hq]
  simp only [bind_eq_ok_iff, valueAt_eq_ok_iff, TypeTable.store_of_stock h.target]
  constructor
  · rintro ⟨v, ⟨us, hus, hv⟩, hs⟩
    exact ⟨us, v, hus, hv, hs⟩
  · rintro ⟨us, v, hus, hv, hs⟩
    exact ⟨v, ⟨us, hus, hv⟩, hs⟩

theorem Reads.position_of_counterpart_error (h : l.Reads vs n p) {i : Nat} (hi : i < n)
    {q : Payload} (hq : ∀ j, i ≤ j → q.get? j = p.get? j) {us : List Value}
    (hus : Elements vs i us) {e : DispatchError}
    (he : l.counterpart (l.site.child i) us = .error e) :
    l.position q i = .error (e.within (.element i)) := by
  rw [h.position_eq hi hq, valueAt_of_elements hus, he]
  rfl

/-! ## What a run leaves -/

/-- `q` is `p` after the first `i` positions: they hold what the counterpart has made of the
elements of the operands, and the others what they did before. -/
structure FilledTo (l : Loop) (vs : List Value) (p : Payload) (i : Nat) (q : Payload) : Prop where
  form_eq : q.form = p.form
  length_eq : q.length = p.length
  done : ∀ j, j < i → ∃ us v w, Elements vs j us ∧
    l.counterpart (l.site.child j) us = .ok v ∧ p.form.admit? v = some w ∧ q.get? j = some w
  rest : ∀ j, i ≤ j → q.get? j = p.get? j

theorem filledTo_zero : l.FilledTo vs p 0 p :=
  ⟨rfl, rfl, fun _ hj => by omega, fun _ _ => rfl⟩

theorem Reads.filledTo_succ (h : l.Reads vs n p) {i : Nat} (hi : i < n) {q s : Payload}
    (hq : l.FilledTo vs p i q) (hs : l.position q i = .ok s) : l.FilledTo vs p (i + 1) s := by
  obtain ⟨us, v, hus, hv, hset⟩ := (h.position_eq_ok_iff hi hq.rest).mp hs
  obtain ⟨w, hw, hwr⟩ := Payload.written_of_set_eq_ok hset
  rw [hq.form_eq] at hw
  refine ⟨hwr.form_eq.trans hq.form_eq, hwr.length_eq.trans hq.length_eq, fun j hj => ?_,
    fun j hj => (hwr.get?_ne j (by omega)).trans (hq.rest j (by omega))⟩
  rcases Nat.lt_succ_iff_lt_or_eq.mp hj with hlt | rfl
  · obtain ⟨us', v', w', h1, h2, h3, h4⟩ := hq.done j hlt
    exact ⟨us', v', w', h1, h2, h3, (hwr.get?_ne j (by omega)).trans h4⟩
  · exact ⟨us, v, w, hus, hv, hw, hwr.get?_self⟩

theorem Reads.run_filledTo (h : l.Reads vs n p) :
    (∀ q, l.run p n = (.ok (), q) → l.FilledTo vs p n q) ∧
      ∀ e q, l.run p n = (.error e, q) →
        ∃ i, i < n ∧ l.FilledTo vs p i q ∧ l.position q i = .error e :=
  run_invariant (l.FilledTo vs p) filledTo_zero fun _ _ _ hi hq hs => h.filledTo_succ hi hq hs

/-- What the results of the counterpart become in storage of the type `d` are elements of it. -/
def Produces (l : Loop) (vs : List Value) (d : Descriptor) : Prop :=
  ∀ i us v w, Elements vs i us → l.counterpart (l.site.child i) us = .ok v →
    d.form.admit? v = some w → d.HasItem w

theorem FilledTo.holds {d : Descriptor} {i : Nat} {q : Payload} (h : l.FilledTo vs p i q)
    (hl : l.Produces vs d) (hd : d.isTensor = false) (hf : p.form = d.form)
    (hn : d.extent.Admits p.length) (hrest : ∀ j v, i ≤ j → p.get? j = some v → d.HasItem v) :
    d.Holds q := by
  refine Descriptor.holds_of_items hd (h.form_eq.trans hf) (h.length_eq ▸ hn) fun j v hv => ?_
  by_cases hj : j < i
  · obtain ⟨us, u, w, hus, hu, hw, hget⟩ := h.done j hj
    rw [hget, Option.some.injEq] at hv
    exact hv ▸ hl j us u w hus hu (hf ▸ hw)
  · rw [h.rest j (by omega)] at hv
    exact hrest j v (by omega) hv

/-- New storage that is filled to its end holds nothing but what is stored. -/
theorem FilledTo.holds_of_alloc {d : Descriptor} {site : Site} {q : Payload}
    (h : l.FilledTo vs (d.alloc site n) n q) (hl : l.Produces vs d) (hd : d.isTensor = false)
    (hn : d.extent.Admits n) : d.Holds q := by
  have hlen : (d.alloc site n).length = n := d.length_alloc hd site n
  refine h.holds hl hd (d.form_alloc site n) (by rwa [hlen]) fun j v hj hv => ?_
  have hlt := Payload.lt_length_of_get? hv
  omega

theorem Reads.exists_run (h : l.Reads vs n p) (hn : n ≤ p.length)
    (hpos : ∀ i, i < n → ∃ us v w, Elements vs i us ∧
      l.counterpart (l.site.child i) us = .ok v ∧ p.form.admit? v = some w) :
    ∃ q, l.run p n = (.ok (), q) := by
  rcases hrun : l.run p n with ⟨e | u, q⟩
  · obtain ⟨i, hi, hq, he⟩ := h.run_filledTo.2 e q hrun
    obtain ⟨us, v, w, hus, hv, hw⟩ := hpos i hi
    have hlt : i < q.length := by
      rw [hq.length_eq]
      omega
    obtain ⟨s, hs⟩ := Payload.exists_set_eq_ok hlt (hq.form_eq ▸ hw)
    rw [(h.position_eq_ok_iff hi hq.rest).mpr ⟨us, v, hus, hv, hs⟩] at he
    cases he
  · exact ⟨q, rfl⟩

theorem Reads.exists_run_iff (h : l.Reads vs n p) (hn : n ≤ p.length) :
    (∃ q, l.run p n = (.ok (), q)) ↔ ∀ i, i < n → ∃ us v w, Elements vs i us ∧
      l.counterpart (l.site.child i) us = .ok v ∧ p.form.admit? v = some w := by
  refine ⟨fun ⟨q, hq⟩ i hi => ?_, h.exists_run hn⟩
  obtain ⟨us, v, w, hus, hv, hw, _⟩ := (h.run_filledTo.1 q hq).done i hi
  exact ⟨us, v, w, hus, hv, hw⟩

theorem intoNew_of_run_eq_ok {site : Site} {q : Payload}
    (h : l.run (l.target.alloc site n) n = (.ok (), q)) (held operands : List Value)
    (target : Option Object) :
    l.intoNew held site n target operands =
      finish held operands target ⟨site, l.target.key, q⟩ := by
  unfold intoNew
  rw [h]

/-! ## Loops on the same operands -/

/-- `q` and `q'` arise alike from `p` and `p'`: they agree on the first `i` positions, and hold what
`p` and `p'` do at the others. -/
structure Alike (p p' : Payload) (i : Nat) (q q' : Payload) : Prop where
  form_eq : q.form = p.form ∧ q'.form = p'.form
  length_eq : q.length = p.length ∧ q'.length = p'.length
  done : ∀ j, j < i → q.get? j = q'.get? j
  rest : ∀ j, i ≤ j → q.get? j = p.get? j ∧ q'.get? j = p'.get? j

theorem alike_zero {p p' : Payload} : Alike p p' 0 p p' :=
  ⟨⟨rfl, rfl⟩, ⟨rfl, rfl⟩, fun _ hj => by omega, fun _ _ => ⟨rfl, rfl⟩⟩

theorem Alike.written {p p' q q' s s' : Payload} {i : Nat} {w : Value} (hq : Alike p p' i q q')
    (hs : q.Written i w s) (hs' : q'.Written i w s') : Alike p p' (i + 1) s s' := by
  refine ⟨⟨hs.form_eq.trans hq.form_eq.1, hs'.form_eq.trans hq.form_eq.2⟩,
    ⟨hs.length_eq.trans hq.length_eq.1, hs'.length_eq.trans hq.length_eq.2⟩, fun j hj => ?_,
    fun j hj => ?_⟩
  · rcases Nat.lt_succ_iff_lt_or_eq.mp hj with hlt | rfl
    · rw [hs.get?_ne j (by omega), hs'.get?_ne j (by omega)]
      exact hq.done j hlt
    · rw [hs.get?_self, hs'.get?_self]
  · rw [hs.get?_ne j (by omega), hs'.get?_ne j (by omega)]
    exact hq.rest j (by omega)

theorem Alike.eq {p p' q q' : Payload} {n : Nat} (h : Alike p p' n q q') (hf : p'.form = p.form)
    (ht : p.form ≠ .tensor) (hl : p'.length = p.length) (hn : p.length = n) : q = q' := by
  refine Payload.eq_of_get?_eq ?_ ?_ ?_ fun i hi => h.done i ?_
  · rw [h.form_eq.1, h.form_eq.2, hf]
  · rw [h.form_eq.1]
    exact ht
  · rw [h.length_eq.1, h.length_eq.2, hl]
  · rwa [h.length_eq.1, hn] at hi

/-- Loops that differ in the storage they write, and in which of their operands are that storage,
have the same outcome. -/
theorem run_alike {t : TypeTable} {d : Descriptor} {cp : Counterpart}
    {sources sources' : List (Option Value × Nat)} {site : Site} {p p' : Payload}
    (h : (Loop.mk t d cp sources site).Reads vs n p)
    (h' : (Loop.mk t d cp sources' site).Reads vs n p') (hf : p'.form = p.form)
    (hl : p'.length = p.length) :
    (∃ q q', (Loop.mk t d cp sources site).run p n = (.ok (), q) ∧
        (Loop.mk t d cp sources' site).run p' n = (.ok (), q') ∧ Alike p p' n q q') ∨
      ∃ i e q q', (Loop.mk t d cp sources site).StopsAt p n i e q ∧
        (Loop.mk t d cp sources' site).StopsAt p' n i e q' ∧ Alike p p' i q q' := by
  suffices hsim : _ ∨ ∃ i e e' q q', (Loop.mk t d cp sources site).StopsAt p n i e q ∧
      (Loop.mk t d cp sources' site).StopsAt p' n i e' q' ∧ Alike p p' i q q' ∧ e = e' by
    rcases hsim with h | ⟨i, e, e', q, q', hs, hs', hq, rfl⟩
    · exact .inl h
    · exact .inr ⟨i, e, q, q', hs, hs', hq⟩
  refine run_simulation (Alike p p') (· = ·) alike_zero fun i q q' hi hq => ?_
  have hform : q'.form = q.form := hq.form_eq.2.trans (hf.trans hq.form_eq.1.symm)
  have hlen : q'.length = q.length := hq.length_eq.2.trans (hl.trans hq.length_eq.1.symm)
  rw [h.position_eq hi fun j hj => (hq.rest j hj).1,
    h'.position_eq hi fun j hj => (hq.rest j hj).2]
  change (∃ s s', (Loop.mk t d cp sources site).valueAt vs i >>= t.store d q i = .ok s ∧
    (Loop.mk t d cp sources site).valueAt vs i >>= t.store d q' i = .ok s' ∧ _) ∨
      ∃ e e', (Loop.mk t d cp sources site).valueAt vs i >>= t.store d q i = .error e ∧
        (Loop.mk t d cp sources site).valueAt vs i >>= t.store d q' i = .error e' ∧ e = e'
  cases (Loop.mk t d cp sources site).valueAt vs i with
  | error e => exact .inr ⟨e, e, rfl, rfl, rfl⟩
  | ok v =>
    change (∃ s s', t.store d q i v = .ok s ∧ t.store d q' i v = .ok s' ∧ _) ∨
      ∃ e e', t.store d q i v = .error e ∧ t.store d q' i v = .error e' ∧ e = e'
    rw [TypeTable.store_eq h.target, TypeTable.store_eq h.target]
    cases hs : q.set i v with
    | error u =>
      rw [Payload.set_eq_error_of_set_eq_error hform hlen hs, Payload.eq_of_set_eq_error hs]
      exact .inr ⟨_, _, rfl, rfl, rfl⟩
    | ok s =>
      obtain ⟨w, hw, hwr⟩ := Payload.written_of_set_eq_ok hs
      obtain ⟨s', hs'⟩ := Payload.exists_set_eq_ok (hlen ▸ hwr.lt_length) (hform ▸ hw)
      obtain ⟨w', hw', hwr'⟩ := Payload.written_of_set_eq_ok hs'
      rw [hform, hw, Option.some.injEq] at hw'
      subst hw'
      rw [hs']
      exact .inl ⟨s, s', rfl, rfl, hq.written hwr hwr'⟩

end Loop

end ArrayDispatch
