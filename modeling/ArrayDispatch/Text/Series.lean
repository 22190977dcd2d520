/-!
Series of texts: in square brackets, and in prose.
-/

namespace ArrayDispatch

/-- A list between square brackets: `[a, b]`. -/
def bracketed (parts : List String) : String := "[" ++ ", ".intercalate parts ++ "]"

/-- A list in prose: `a`, `a and b`, `a, b, and c`. -/
def enumeration : List String → String
  | [] => ""
  | [a] => a
  | [a, b] => a ++ " and " ++ b
  | parts => ", ".intercalate parts.dropLast ++ ", and " ++ parts.getLast?.getD ""

/-- Text of a shape: `[2, 3]`. -/
def shapeText (shape : List Nat) : String := bracketed (shape.map toString)

end ArrayDispatch
