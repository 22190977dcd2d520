import ArrayDispatch.Value.Basic

/-!
Levels of arrays inside a value. An element has fewer levels than its array.
-/

namespace ArrayDispatch

mutual

def Value.depth : Value → Nat
  | .scalar _ => 0
  | .array a => a.depth

def Object.depth : Object → Nat
  | ⟨_, _, p⟩ => p.depth

def Payload.depth : Payload → Nat
  | .flat _ => 1
  | .nested items => Value.depthOf items + 1
  | .tensor backing _ => backing.depth + 1

def Value.depthOf : List Value → Nat
  | [] => 0
  | v :: vs => max v.depth (Value.depthOf vs)

end

theorem Value.depth_le_depthOf {v : Value} {vs : List Value} (h : v ∈ vs) :
    v.depth ≤ Value.depthOf vs := by
  induction vs with
  | nil => simp at h
  | cons w vs ih =>
    rw [Value.depthOf]
    rcases List.mem_cons.mp h with rfl | h
    · exact Nat.le_max_left _ _
    · exact Nat.le_trans (ih h) (Nat.le_max_right _ _)

end ArrayDispatch
