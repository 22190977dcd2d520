import ArrayDispatch.Proofs.Value.Element

/-!
Index paths into nested arrays. Operands are followed together: where the lengths of a level agree,
the level below is reached at every position, and an operand of length 1 repeats its element.
-/

namespace ArrayDispatch

namespace Value

def at? : Value → List Nat → Option Value
  | v, [] => some v
  | scalar _, _ :: _ => none
  | array a, i :: path => (a.payload.get? i).bind (at? · path)

/-- Element that an operand contributes to an index path. -/
def pinnedAt? : Value → List Nat → Option Value
  | v, [] => some v
  | v, i :: path => (v.element? i).bind (pinnedAt? · path)

@[simp] theorem at?_nil (v : Value) : v.at? [] = some v := by
  cases v <;> rfl

@[simp] theorem at?_scalar_cons (s : Scalar) (i : Nat) (path : List Nat) :
    (scalar s).at? (i :: path) = none := rfl

@[simp] theorem at?_array_cons (a : Object) (i : Nat) (path : List Nat) :
    (array a).at? (i :: path) = (a.payload.get? i).bind (·.at? path) := rfl

end Value

/-- The operands contribute the values `ws` to an index path. -/
def ElementsAt (vs : List Value) (path : List Nat) (ws : List Value) : Prop :=
  List.Forall₂ (fun v w => v.pinnedAt? path = some w) vs ws

/-- The index paths at which an evaluation of operands position by position arrives. -/
inductive Reached : List Value → List Nat → Prop
  | here (vs : List Value) : Reached vs []
  | inside {vs us : List Value} {lens path : List Nat} {n i : Nat} (hl : Lengths vs lens)
      (hn : Reconciles lens n) (hi : i < n) (hu : Elements vs i us) (h : Reached us path) :
      Reached vs (i :: path)

section Operands

variable {vs us ws : List Value} {path : List Nat} {i : Nat}

theorem elementsAt_nil : ElementsAt vs [] ws ↔ ws = vs := by
  constructor
  · intro h
    induction vs generalizing ws with
    | nil => cases h; rfl
    | cons v vs ih =>
      cases h with
      | cons hv h =>
        cases hv
        rw [ih h]
  · rintro rfl
    exact List.forall₂_same.mpr fun v _ => rfl

theorem elementsAt_cons (hu : Elements vs i us) :
    ElementsAt vs (i :: path) ws ↔ ElementsAt us path ws := by
  have hstep : ∀ v u w : Value, v.element? i = some u →
      (v.pinnedAt? (i :: path) = some w ↔ u.pinnedAt? path = some w) := by
    intro v u w hv
    rw [Value.pinnedAt?, hv]
    rfl
  induction hu generalizing ws with
  | nil => exact ⟨fun h => by cases h; exact .nil, fun h => by cases h; exact .nil⟩
  | cons hv _ ih =>
    constructor
    · intro h
      cases h with
      | cons hw h => exact .cons ((hstep _ _ _ hv).mp hw) (ih.mp h)
    · intro h
      cases h with
      | cons hw h => exact .cons ((hstep _ _ _ hv).mpr hw) (ih.mpr h)

theorem reached_scalars_iff {ss : List Scalar} (hs : ss ≠ []) :
    Reached (ss.map .scalar) path ↔ path = [] := by
  constructor
  · intro h
    cases h with
    | here => rfl
    | inside hl _ _ _ _ =>
      cases ss with
      | nil => exact absurd rfl hs
      | cons s ss =>
        cases hl with
        | cons hv _ => cases hv
  · rintro rfl
    exact .here _

end Operands

end ArrayDispatch
