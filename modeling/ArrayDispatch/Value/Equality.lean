import ArrayDispatch.Value.Basic

/-!
Equality of values by types and contents, whatever the identities.
-/

namespace ArrayDispatch

mutual

/-- Equality of types and contents, whatever the identities. -/
def Value.equals : Value → Value → Bool
  | .scalar s, .scalar t => s.equals t
  | .array a, .array b => a.equals b
  | _, _ => false

def Object.equals : Object → Object → Bool
  | ⟨_, t, p⟩, ⟨_, u, q⟩ => t = u && p.equals q

def Payload.equals : Payload → Payload → Bool
  | .flat a, .flat b => a.equals b
  | .nested xs, .nested ys => Value.allEqual xs ys
  | .tensor a s, .tensor b t => a.equals b && s == t
  | _, _ => false

def Value.allEqual : List Value → List Value → Bool
  | [], [] => true
  | x :: xs, y :: ys => x.equals y && Value.allEqual xs ys
  | _, _ => false

end

end ArrayDispatch
