import ArrayDispatch.Proofs.Dispatch.EmptyRows
import ArrayDispatch.Proofs.Stock.Lawful

/-!
Calls with another number of operands than their operation has, in the stock registry. They return
values on empty arrays of types that take the operation position by position, and nowhere else.
-/

namespace ArrayDispatch

namespace Stock

theorem countsOperands_registry : ∀ d ∈ registry.types.types, d.CountsOperands := by
  decide +kernel

theorem ndim_registry : ∀ d ∈ registry.types.types, d.ndim ≤ 2 := by
  decide +kernel

def maskRows (site : Site) (rows : List (List Bool)) : Value :=
  .array ⟨site, array3bX, .nested (rows.zipIdx.map fun (row, i) =>
    .array ⟨site.child i, boolX, .flat ⟨.bool, row⟩⟩)⟩

theorem wellFormed_maskRows (site : Site) {rows : List (List Bool)} (h : rows.length = 3) :
    registry.types.WellFormed (maskRows site rows) := by
  have hd : registry.types.Registered maskRowsType := rfl
  refine .of_isInstance hd ⟨_, rfl, rfl, fun v hv => ?_, ?_⟩
  · obtain ⟨_, _, rfl⟩ := List.mem_map.mp hv
    exact ⟨_, rfl, rfl, rfl, trivial⟩
  · rw [List.length_map, List.length_zipIdx]
    exact h

end Stock

/-- In the stock registry, a call with another number of operands than its operation has returns a
value exactly if the operands are unified to a type on which the call is idle: it reaches no scalar
and no kernel, which are all that looks at the number. If it returns none, it leaves the contents of
its operands as they are; the operands themselves are left alone if it does not work in place. -/
theorem apply_miscounted {c : Call} (hc : c.Direct) {vs : List Value}
    (hn : c.Miscounts vs.length) (hvs : ∀ v ∈ vs, Stock.registry.types.WellFormed v) {site : Site}
    (hh : Handles site vs) (held : List Value) :
    ((∃ w, (Stock.registry.apply c held site vs).result = .ok (.value w)) ↔
        Stock.registry.Idles c site vs) ∧
      (c.mode = .normal → (Stock.registry.apply c held site vs).operands = vs) ∧
      ((Stock.registry.apply c held site vs).value? = none →
        (Stock.registry.apply c held site vs).operands.map Value.contents =
          vs.map Value.contents) := by
  have ht : Stock.registry.types.Regular :=
    ⟨Stock.built_registry.sound, Stock.stockAccess_registry⟩
  refine ⟨Registry.apply_returns_iff_idles ht Stock.lawful_registry rfl
    Stock.countsOperands_registry hc hvs hh hn held, fun hm => ?_, fun hnone =>
    Registry.apply_contents ht rfl Stock.countsOperands_registry Stock.ndim_registry hc hvs hh hn
      hnone⟩
  obtain ⟨k, hk⟩ := Stock.registry.exists_apply_eq vs
  rw [hk]
  exact Registry.step_leavesAlone (.inl (by rw [hm]; decide))

/-- Two operands for a negation in place: the loop stores two empty rows before it reaches a
scalar. -/
theorem apply_miscounted_rows :
    let vs := [Stock.maskRows ⟨[0]⟩ [[], [], [true]], Stock.maskRows ⟨[1]⟩ [[], [], [false]]]
    let c : Call := ⟨.inPlace, .invert, .method⟩
    c.Direct ∧ c.Miscounts vs.length ∧ (∀ v ∈ vs, Stock.registry.types.WellFormed v) ∧
      Handles ⟨[2]⟩ vs ∧ ¬Stock.registry.Idles c ⟨[2]⟩ vs ∧
      (Stock.registry.apply c [] ⟨[2]⟩ vs).operands ≠ vs ∧
      (Stock.registry.apply c [] ⟨[2]⟩ vs).operands.map Value.contents =
        vs.map Value.contents := by
  intro vs c
  have hc : c.Direct := .method (.inr rfl) (by decide)
  have hn : c.Miscounts vs.length := ⟨by decide, by decide, by decide⟩
  have hvs : ∀ v ∈ vs, Stock.registry.types.WellFormed v := by
    simp only [vs, List.forall_mem_cons]
    exact ⟨Stock.wellFormed_maskRows _ rfl, Stock.wellFormed_maskRows _ rfl, List.forall_mem_nil _⟩
  have hh : Handles ⟨[2]⟩ vs := handles_pair (by decide) (by decide)
  have hnone : (Stock.registry.apply c [] ⟨[2]⟩ vs).value? = none :=
    Option.isNone_iff_eq_none.mp (by decide +kernel)
  have hids : (Stock.registry.apply c [] ⟨[2]⟩ vs).operands.map Value.ids ≠ vs.map Value.ids := by
    decide +kernel
  obtain ⟨hiff, _, hcontents⟩ := apply_miscounted hc hn hvs hh []
  refine ⟨hc, hn, hvs, hh, fun hidles => ?_,
    fun hsame => hids (congrArg (List.map Value.ids) hsame), hcontents hnone⟩
  obtain ⟨w, hw⟩ := hiff.mpr hidles
  exact Outcome.result_ne_of_value? hnone w hw

/-- An empty array of integers is returned as the sum of one operand. -/
theorem apply_miscounted_empty :
    let x := Stock.integerArray ⟨[0]⟩ []
    let c : Call := ⟨.normal, .add, .method⟩
    c.Direct ∧ c.Miscounts [x].length ∧ Stock.registry.types.WellFormed x ∧
      (Stock.registry.apply c [] ⟨[1]⟩ [x]).result =
        .ok (.value (Stock.integerArray ⟨[1]⟩ [])) :=
  ⟨.method (.inl rfl) (by decide), ⟨by decide, by decide, by decide⟩,
    .of_isInstance Stock.registered_integers (Stock.isInstance_integerArray _ _), rfl⟩

end ArrayDispatch
