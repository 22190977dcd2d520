import ArrayDispatch.Text.Series
import ArrayDispatch.Value.Basic

/-!
Text of values.
-/

namespace ArrayDispatch

mutual

/-- Text of a value: arrays as lists of their elements, tensors with their shape. -/
def Value.text : Value → String
  | .scalar s => s.text
  | .array a => a.text

def Object.text : Object → String
  | ⟨_, _, p⟩ => p.text

def Payload.text : Payload → String
  | .flat b => bracketed (b.toList.map Scalar.text)
  | .nested items => bracketed (Value.texts items)
  | .tensor backing shape => "tensor" ++ shapeText shape ++ "(" ++ backing.text ++ ")"

def Value.texts : List Value → List String
  | [] => []
  | v :: vs => v.text :: Value.texts vs

end

end ArrayDispatch
