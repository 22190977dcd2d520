import ArrayDispatch.Proofs.Dispatch.Generic
import ArrayDispatch.Proofs.Stock.Registry
import ArrayDispatch.Proofs.Value.Path

/-!
Operations on nested arrays whose every level takes them position by position. Such a call succeeds
exactly if the lengths of every level agree and every scalar at the bottom can be evaluated, and
its result answers every index path.
-/

namespace ArrayDispatch

/-- A type of flat and nested layouts, all of which take an operation position by position. -/
def Descriptor.Elementwise (op : Op) : Descriptor → Prop
  | .flat info _ _ => info.ops op = .generic
  | .nested info element _ => info.ops op = .generic ∧ element.Elementwise op
  | .tensor .. => False

/-- The operands that stand side by side at one place of an evaluation admit a result there: arrays
whose lengths agree, or scalars on which the operation has a value. -/
def Settles (op : Op) (vs : List Value) : Prop :=
  (∃ lens n, Lengths vs lens ∧ Reconciles lens n) ∨
    ∃ ss s, vs = ss.map .scalar ∧ Scalar.eval op .method ss = .ok s

/-- Every place that the evaluation reaches admits a result. -/
def AllSettle (op : Op) (vs : List Value) : Prop :=
  ∀ path ws, Reached vs path → ElementsAt vs path ws → Settles op ws

/-- `w` has exactly the index paths that the evaluation reaches, at every level the length on which
the operands agree, and at every leaf the value of the operation on their leaves, stored as an
element of kind `kind`. -/
structure Answers (op : Op) (kind : Kind) (vs : List Value) (w : Value) : Prop where
  reached_iff : ∀ path, (∃ u, w.at? path = some u) ↔ Reached vs path
  length_eq : ∀ path ws lens n, Reached vs path → ElementsAt vs path ws → Lengths ws lens →
    Reconciles lens n → ∃ a, w.at? path = some (.array a) ∧ a.length = n
  leaf_eq : ∀ path ss s, Reached vs path → ElementsAt vs path (ss.map .scalar) →
    Scalar.eval op .method ss = .ok s → w.at? path = some (.scalar ⟨kind, s.store kind⟩)

/-! ## Scalars and levels -/

section Levels

variable {op : Op} {kind : Kind} {vs : List Value} {lens : List Nat} {n : Nat}

theorem not_lengths_scalars {ss : List Scalar} (hs : ss ≠ []) :
    ¬Lengths (ss.map .scalar) lens := by
  intro h
  cases ss with
  | nil => exact hs rfl
  | cons s ss =>
    cases h with
    | cons hv _ => cases hv

theorem scalars_inj {ss ss' : List Scalar} :
    ss.map Value.scalar = ss'.map .scalar ↔ ss = ss' :=
  List.map_inj_right fun _ _ h => Value.scalar.inj h

theorem allSettle_scalars {ss : List Scalar} (hs : ss ≠ []) :
    AllSettle op (ss.map .scalar) ↔ ∃ s, Scalar.eval op .method ss = .ok s := by
  constructor
  · intro h
    rcases h [] _ (.here _) (elementsAt_nil.mpr rfl) with ⟨lens, _, hl, _⟩ | ⟨ss', s, hss, he⟩
    · exact absurd hl (not_lengths_scalars hs)
    · exact ⟨s, scalars_inj.mp hss ▸ he⟩
  · rintro ⟨s, he⟩ path ws hp hw
    rw [(reached_scalars_iff hs).mp hp, elementsAt_nil] at hw
    exact .inr ⟨ss, s, hw, he⟩

theorem answers_scalars {ss : List Scalar} (hs : ss ≠ []) {s : Scalar}
    (he : Scalar.eval op .method ss = .ok s) :
    Answers op kind (ss.map .scalar) (.scalar ⟨kind, s.store kind⟩) := by
  refine ⟨fun path => ?_, ?_, ?_⟩
  · rw [reached_scalars_iff hs]
    cases path with
    | nil => simp
    | cons i path => simp
  · intro path ws lens n hp hw hl _
    rw [(reached_scalars_iff hs).mp hp, elementsAt_nil] at hw
    exact absurd (hw ▸ hl) (not_lengths_scalars hs)
  · intro path ss' s' hp hw he'
    rw [(reached_scalars_iff hs).mp hp] at hw ⊢
    rw [elementsAt_nil, scalars_inj] at hw
    subst hw
    rw [he] at he'
    cases he'
    simp

theorem allSettle_iff (hne : vs ≠ []) (hl : Lengths vs lens) :
    AllSettle op vs ↔
      ∃ n, Reconciles lens n ∧ ∀ i us, i < n → Elements vs i us → AllSettle op us := by
  constructor
  · intro h
    rcases h [] vs (.here _) (elementsAt_nil.mpr rfl) with ⟨lens', n, hl', hn⟩ | ⟨ss, s, rfl, _⟩
    · cases hl.unique hl'
      refine ⟨n, hn, fun i us hi hu path ws hp hw => ?_⟩
      exact h (i :: path) ws (.inside hl hn hi hu hp) ((elementsAt_cons hu).mpr hw)
    · exact absurd hl (not_lengths_scalars (by simpa using hne))
  · rintro ⟨n, hn, h⟩ path ws hp hw
    cases path with
    | nil =>
      rw [elementsAt_nil.mp hw]
      exact .inl ⟨lens, n, hl, hn⟩
    | cons i path =>
      cases hp with
      | inside hl' hn' hi hu hp =>
        cases hl.unique hl'
        cases hn.unique hn'
        exact h i _ hi hu path ws hp ((elementsAt_cons hu).mp hw)

theorem answers_array (hl : Lengths vs lens) (hn : Reconciles lens n) {a : Object}
    (ha : a.length = n)
    (hitem : ∀ i, i < n →
      ∃ us u, Elements vs i us ∧ a.payload.get? i = some u ∧ Answers op kind us u) :
    Answers op kind vs (.array a) := by
  have hbelow : ∀ i path, Reached vs (i :: path) → ∃ us u, Elements vs i us ∧
      a.payload.get? i = some u ∧ Answers op kind us u ∧ Reached us path := by
    intro i path hp
    cases hp with
    | inside hl' hn' hi hu hp =>
      cases hl.unique hl'
      cases hn.unique hn'
      obtain ⟨us, u, hus, hget, hans⟩ := hitem i hi
      cases hus.unique hu
      exact ⟨_, u, hu, hget, hans, hp⟩
  refine ⟨fun path => ?_, fun path ws lens' n' hp hw hl' hn' => ?_, fun path ss s hp hw he => ?_⟩
  · cases path with
    | nil => exact ⟨fun _ => .here _, fun _ => ⟨_, rfl⟩⟩
    | cons i path =>
      constructor
      · rintro ⟨u, hu⟩
        obtain ⟨v, hv, hu⟩ := Option.bind_eq_some_iff.mp hu
        have hi : i < n := ha ▸ Payload.lt_length_of_get? hv
        obtain ⟨us, v', hus, hv', hans⟩ := hitem i hi
        rw [hv, Option.some.injEq] at hv'
        subst hv'
        exact .inside hl hn hi hus ((hans.reached_iff path).mp ⟨u, hu⟩)
      · intro hp
        obtain ⟨us, v, hus, hv, hans, hp⟩ := hbelow i path hp
        rw [Value.at?_array_cons, hv]
        exact (hans.reached_iff path).mpr hp
  · cases path with
    | nil =>
      rw [elementsAt_nil] at hw
      subst hw
      cases hl.unique hl'
      exact ⟨a, by simp, ha.trans (hn.unique hn')⟩
    | cons i path =>
      obtain ⟨us, v, hus, hv, hans, hp⟩ := hbelow i path hp
      rw [Value.at?_array_cons, hv]
      exact hans.length_eq path ws lens' n' hp ((elementsAt_cons hus).mp hw) hl' hn'
  · cases path with
    | nil =>
      rw [elementsAt_nil] at hw
      subst hw
      have hne : ss ≠ [] := by
        rintro rfl
        cases hl
        cases hn.mem
      exact absurd hl (not_lengths_scalars hne)
    | cons i path =>
      obtain ⟨us, v, hus, hv, hans, hp⟩ := hbelow i path hp
      rw [Value.at?_array_cons, hv]
      exact hans.leaf_eq path ss s hp ((elementsAt_cons hus).mp hw) he

end Levels

/-! ## Evaluation -/

namespace Registry

variable {r : Registry} {self : Dispatcher} {op : Op} {held vs : List Value} {site : Site}
  {d : Descriptor} {lens : List Nat}

/-- A call on a level succeeds exactly if the level settles, once its nested calls succeed exactly
if the elements settle. -/
theorem exists_step_eq_ok_iff (ht : r.types.Regular) (hd : r.types.Registered d)
    (hp : d.isTensor = false) (hop : d.op op = .generic) (hvs : ∀ v ∈ vs, d.IsInstance v)
    (hpos : 0 < vs.length) (hle : vs.length ≤ 3)
    (hself : ∀ i us site, Elements vs i us →
      ((∃ v, (self ⟨.normal, op, .method⟩ us site us).result = .ok (.value v)) ↔
        AllSettle op us) ∧
      ∀ v, (self ⟨.normal, op, .method⟩ us site us).result = .ok (.value v) →
        ∃ w, d.form.admit? v = some w) :
    (∃ w, (r.step self ⟨.normal, op, .method⟩ held site vs).result = .ok (.value w)) ↔
      AllSettle op vs := by
  have harr : r.Arrays vs := fun v hv => ⟨d, hd, hvs v hv⟩
  obtain ⟨lens, hl⟩ := exists_lengths harr
  have hne : vs ≠ [] := List.ne_nil_of_length_pos hpos
  rw [allSettle_iff hne hl]
  constructor
  · rintro ⟨w, hw⟩
    obtain ⟨n, q, hr, hq, _⟩ := exists_filledTo_of_step ht hd hp hop hvs hpos hle hl hw
    refine ⟨n, hr, fun i us hi hus => ?_⟩
    obtain ⟨us', v, _, hus', hv, _, _⟩ := hq.done i hi
    cases hus.unique hus'
    exact (hself i us _ hus).1.mp ⟨v, Dispatcher.onElements_eq_ok_iff.mp hv⟩
  · rintro ⟨n, hr, hall⟩
    have hreads : (r.elementLoop self op d vs lens site).Reads vs n (d.alloc site n) :=
      reads_of_arrays ht harr hl (ht.access_of_registered hd) _ _ _ _
    have hlen : n ≤ (d.alloc site n).length := Nat.le_of_eq (d.length_alloc hp site n).symm
    obtain ⟨q, hq⟩ := hreads.exists_run hlen fun i hi => by
      obtain ⟨us, hus⟩ := exists_elements_of_instances hp hvs hl hr hi
      obtain ⟨hiff, hok⟩ := hself i us ((site.child 4).child i) hus
      obtain ⟨v, hv⟩ := hiff.mpr (hall i us hi hus)
      obtain ⟨w, hw⟩ := hok v hv
      exact ⟨us, v, w, hus, Dispatcher.onElements_eq_ok_iff.mpr hv, by rwa [d.form_alloc]⟩
    exact ⟨_, (step_generic_eq_ok_iff ht hd hp hop hvs hpos hle hl).mpr ⟨n, q, hr, hq, rfl⟩⟩

theorem answers_of_step (ht : r.types.Regular) (hd : r.types.Registered d)
    (hp : d.isTensor = false) (hop : d.op op = .generic) (hvs : ∀ v ∈ vs, d.IsInstance v)
    (hpos : 0 < vs.length) (hle : vs.length ≤ 3)
    (hself : ∀ i us site v, Elements vs i us →
      (self ⟨.normal, op, .method⟩ us site us).result = .ok (.value v) →
        ∃ w, d.form.admit? v = some w ∧ d.HasItem w ∧ Answers op kind us w) {o : Applied}
    (h : (r.step self ⟨.normal, op, .method⟩ held site vs).result = .ok o) :
    ∃ w, o = .value w ∧ d.IsInstance w ∧ Answers op kind vs w := by
  have harr : r.Arrays vs := fun v hv => ⟨d, hd, hvs v hv⟩
  obtain ⟨lens, hl⟩ := exists_lengths harr
  obtain ⟨n, q, hr, hq, rfl⟩ := exists_filledTo_of_step ht hd hp hop hvs hpos hle hl h
  have hlen : q.length = n := hq.length_eq.trans (d.length_alloc hp site n)
  have hstored : ∀ i us v u, Elements vs i us →
      (r.elementLoop self op d vs lens site).counterpart ((site.child 4).child i) us = .ok v →
      d.form.admit? v = some u → d.HasItem u ∧ Answers op kind us u := by
    intro i us v u hus hv hu
    obtain ⟨u', hu', hhas, hans⟩ := hself i us _ v hus (Dispatcher.onElements_eq_ok_iff.mp hv)
    rw [hu', Option.some.injEq] at hu
    exact hu ▸ ⟨hhas, hans⟩
  have hadm : d.extent.Admits n := by
    obtain ⟨a, ha, han⟩ := hl.exists_of_mem hr.mem
    exact han ▸ (hvs _ ha).admits
  have hholds : d.Holds q :=
    hq.holds_of_alloc (fun i us v u hus hv hu => (hstored i us v u hus hv hu).1) hp hadm
  refine ⟨_, rfl, ⟨_, rfl, rfl, hholds⟩, answers_array hl hr hlen fun i hi => ?_⟩
  obtain ⟨us, v, u, hus, hv, hu, hget⟩ := hq.done i hi
  rw [d.form_alloc] at hu
  exact ⟨us, u, hus, hget, (hstored i us v u hus hv hu).2⟩

/-- A call succeeds exactly if all its places settle, and its result then answers the operands. -/
theorem applyWithin_elementwise (ht : r.types.Regular) (hd : r.types.Registered d)
    (he : d.Elementwise op) {k : Nat} (hk : d.ndim < k) (hvs : ∀ v ∈ vs, d.IsInstance v)
    (hpos : 0 < vs.length) (hle : vs.length ≤ 3) (held : List Value) (site : Site) :
    ((∃ w, (r.applyWithin k ⟨.normal, op, .method⟩ held site vs).result = .ok (.value w)) ↔
        AllSettle op vs) ∧
      ∀ o, (r.applyWithin k ⟨.normal, op, .method⟩ held site vs).result = .ok o →
        ∃ w, o = .value w ∧ d.IsInstance w ∧ Answers op d.leafKind vs w := by
  induction d generalizing k vs held site with
  | flat info leaf extent =>
    obtain ⟨k, rfl⟩ : ∃ m, k = m + 2 := ⟨k - 2, by simp only [Descriptor.ndim] at hk; omega⟩
    have hscalars : ∀ i us, Elements vs i us → ∃ ss, us = ss.map Value.scalar ∧
        ss ≠ [] ∧ Call.Takes ⟨.normal, op, .method⟩ ss.length := by
      intro i us hus
      obtain ⟨ss, rfl⟩ := exists_scalars_of_hasItem (hasItem_of_elements hvs hus)
      have hlen := hus.length_eq
      rw [List.length_map] at hlen
      exact ⟨ss, rfl, List.ne_nil_of_length_pos (by omega),
        Call.takes_of_operandCount? rfl (by omega) (by omega)⟩
    refine ⟨exists_step_eq_ok_iff ht hd rfl he hvs hpos hle fun i us site' hus => ?_,
      fun o ho => answers_of_step ht hd rfl he hvs hpos hle (fun i us site' v hus hv => ?_) ho⟩
    · obtain ⟨ss, rfl, hne, hc⟩ := hscalars i us hus
      refine ⟨?_, fun v hv => ?_⟩
      · rw [allSettle_scalars hne]
        constructor
        · rintro ⟨v, hv⟩
          obtain ⟨s, hs, _⟩ := (step_scalars_eq_ok_iff hc).mp hv
          exact ⟨s, hs⟩
        · rintro ⟨s, hs⟩
          exact ⟨_, (step_scalars_eq_ok_iff hc).mpr ⟨s, hs, rfl⟩⟩
      · obtain ⟨s, _, rfl⟩ := (step_scalars_eq_ok_iff hc).mp hv
        exact ⟨_, rfl⟩
    · obtain ⟨ss, rfl, hne, hc⟩ := hscalars i us hus
      obtain ⟨s, hs, rfl⟩ := (step_scalars_eq_ok_iff hc).mp hv
      exact ⟨_, rfl, ⟨_, rfl, rfl⟩, answers_scalars hne hs⟩
  | nested info element extent ih =>
    obtain ⟨k, rfl⟩ : ∃ m, k = m + 1 := ⟨k - 1, by omega⟩
    have hke : element.ndim < k := by
      simp only [Descriptor.ndim] at hk
      omega
    have hde : r.types.Registered element := ht.registered_component hd rfl
    have hitem : ∀ i us site', Elements vs i us → _ ∧ _ := fun i us site' hus =>
      have hlen : vs.length = us.length := hus.length_eq
      ih hde he.2 hke (hasItem_of_elements hvs hus) (hlen ▸ hpos) (hlen ▸ hle) us site'
    refine ⟨exists_step_eq_ok_iff ht hd rfl he.1 hvs hpos hle fun i us site' hus => ?_,
      fun o ho => answers_of_step ht hd rfl he.1 hvs hpos hle (fun i us site' v hus hv => ?_) ho⟩
    · exact ⟨(hitem i us site' hus).1, fun v _ => ⟨v, rfl⟩⟩
    · obtain ⟨w, hw, hinst, hans⟩ := (hitem i us site' hus).2 _ hv
      cases hw
      exact ⟨v, rfl, hinst, hans⟩
  | tensor info backing => cases he

end Registry

/-- An operation that every level of a type takes position by position, on operands of the type. It
succeeds exactly if the lengths of every level that the evaluation reaches agree and every scalar
evaluation has a value; the result is an instance of the type that answers the operands. -/
theorem apply_elementwise {r : Registry} (hr : r.Built) (ha : r.types.StockAccess)
    {d : Descriptor} {op : Op} (hd : r.types.Registered d) (he : d.Elementwise op)
    {vs : List Value} (hvs : ∀ v ∈ vs, d.IsInstance v) (hlen : vs.length = op.arity)
    (held : List Value) (site : Site) :
    ((∃ w, (r.apply ⟨.normal, op, .method⟩ held site vs).result = .ok (.value w)) ↔
        AllSettle op vs) ∧
      ∀ o, (r.apply ⟨.normal, op, .method⟩ held site vs).result = .ok o →
        ∃ w, o = .value w ∧ d.IsInstance w ∧ Answers op d.leafKind vs w := by
  have hpos : 0 < vs.length := hlen ▸ op.arity_pos
  have hle : vs.length ≤ 3 := hlen ▸ op.arity_le_three
  exact r.applyWithin_elementwise ⟨hr.sound, ha⟩ hd he (Registry.ndim_lt_levels hd vs) hvs hpos hle
    held site

def Stock.booleanRowsType : Descriptor := (registry.types.descriptor? array3bX).get rfl

def Stock.booleanRows (site : Site) (rows : List (List Bool)) : Value :=
  .array ⟨site, array3bX, .nested (rows.zipIdx.map fun (row, i) =>
    .array ⟨site.child i, boolX, .flat ⟨.bool, row⟩⟩)⟩

theorem Stock.isInstance_booleanRows (site : Site) {rows : List (List Bool)}
    (h : rows.length = 3) : booleanRowsType.IsInstance (booleanRows site rows) := by
  refine ⟨_, rfl, rfl, fun v hv => ?_, ?_⟩
  · obtain ⟨⟨row, i⟩, _, rfl⟩ := List.mem_map.mp hv
    exact ⟨_, rfl, rfl, rfl, trivial⟩
  · rw [List.length_map, List.length_zipIdx, h]
    rfl

/-- A row of length 1 is repeated, on either side, and empty rows stay empty. -/
theorem apply_elementwise_rows :
    let vs := [Stock.booleanRows ⟨[0]⟩ [[true], [true, false], []],
      Stock.booleanRows ⟨[1]⟩ [[true, false], [true], []]]
    Stock.registry.types.Registered Stock.booleanRowsType ∧
      Stock.booleanRowsType.Elementwise .minimum ∧ (∀ v ∈ vs, Stock.booleanRowsType.IsInstance v) ∧
      AllSettle .minimum vs ∧
      ∃ w, (Stock.registry.apply ⟨.normal, .minimum, .method⟩ [] ⟨[2]⟩ vs).result =
          .ok (.value w) ∧
        Stock.booleanRowsType.IsInstance w ∧ Answers .minimum .bool vs w := by
  intro vs
  have hd : Stock.registry.types.Registered Stock.booleanRowsType := rfl
  have he : Stock.booleanRowsType.Elementwise .minimum := ⟨rfl, rfl⟩
  have hvs : ∀ v ∈ vs, Stock.booleanRowsType.IsInstance v := by
    simp only [vs, List.forall_mem_cons]
    exact ⟨Stock.isInstance_booleanRows _ rfl, Stock.isInstance_booleanRows _ rfl,
      List.forall_mem_nil _⟩
  obtain ⟨hiff, hans⟩ := apply_elementwise Stock.built_registry Stock.stockAccess_registry hd he hvs
    rfl [] ⟨[2]⟩
  have hok :
      (Stock.registry.apply ⟨.normal, .minimum, .method⟩ [] ⟨[2]⟩ vs).result.toOption.isSome =
        true := by decide +kernel
  cases hres : (Stock.registry.apply ⟨.normal, .minimum, .method⟩ [] ⟨[2]⟩ vs).result with
  | error e =>
    rw [hres] at hok
    cases hok
  | ok o =>
    obtain ⟨w, rfl, hw, hanswers⟩ := hans o hres
    exact ⟨hd, he, hvs, hiff.mp ⟨w, hres⟩, w, rfl, hw, hanswers⟩

end ArrayDispatch
