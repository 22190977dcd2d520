import ArrayDispatch.Value.Basic

/-!
Identities of the objects that a value reaches: who else holds an object, and how one object takes
the place of another.
-/

namespace ArrayDispatch

mutual

/-- Identities of all objects that a value reaches, its own included. -/
def Value.ids : Value → List Site
  | .scalar _ => []
  | .array a => a.ids

def Object.ids : Object → List Site
  | ⟨id, _, p⟩ => id :: p.ids

def Payload.ids : Payload → List Site
  | .flat _ => []
  | .nested items => Value.idsOf items
  | .tensor backing _ => backing.ids

def Value.idsOf : List Value → List Site
  | [] => []
  | v :: vs => v.ids ++ Value.idsOf vs

end

/-- Identities of the objects strictly inside a value. -/
def Value.innerIds : Value → List Site
  | .scalar _ => []
  | .array a => a.payload.ids

/-- No handle but the operands themselves refers to the object: neither one of those held
elsewhere, nor the inside of an operand. -/
def uniquelyHeld (held operands : List Value) (id : Site) : Bool :=
  !(Value.idsOf held).contains id && operands.all fun v => !v.innerIds.contains id

/-- Operands that are the object `old` become the object `new`. -/
def replaceObject (old : Site) (new : Object) (operands : List Value) : List Value :=
  operands.map fun v => if v.id? = some old then .array new else v

theorem Value.mem_ids_of_id? {v : Value} {id : Site} (h : v.id? = some id) : id ∈ v.ids := by
  cases v with
  | scalar s => simp [Value.id?, Value.object?] at h
  | array a =>
    obtain ⟨i, t, p⟩ := a
    simp [Value.id?, Value.object?, Object.id] at h
    simp [Value.ids, Object.ids, h]

end ArrayDispatch
