/-!
The operations that can be dispatched, how a call picks its result type, and how it finds the
element-level counterpart of its operation.
-/

namespace ArrayDispatch

/-- An operation, in the order of the operation tables. -/
inductive Op where
  | neg | invert | abs | sqrt | rcp | rsqrt | cbrt
  | exp | exp2 | log | log2
  | sin | cos | sincos | tan | asin | acos | atan
  | sinh | cosh | sincosh | tanh | asinh | acosh | atanh
  | erf
  | add | sub | mul | truediv | floordiv | mod | lshift | rshift
  | minimum | maximum | atan2
  | and | or | xor
  | fma | select
  | all | any
  | richcmp
deriving DecidableEq, Repr, Inhabited

namespace Op

/-- All operations in table order. -/
def table : List Op :=
  [neg, invert, abs, sqrt, rcp, rsqrt, cbrt, exp, exp2, log, log2, sin, cos, sincos, tan, asin,
    acos, atan, sinh, cosh, sincosh, tanh, asinh, acosh, atanh, erf, add, sub, mul, truediv,
    floordiv, mod, lshift, rshift, minimum, maximum, atan2, and, or, xor, fma, select, all, any,
    richcmp]

/-- Place in an operation table. -/
def index (op : Op) : Nat := op.ctorIdx

/-- Diagnostic name, also that of the function registered for the operation. -/
def name : Op → String
  | neg => "neg" | invert => "invert" | abs => "abs" | sqrt => "sqrt" | rcp => "rcp"
  | rsqrt => "rsqrt" | cbrt => "cbrt" | exp => "exp" | exp2 => "exp2" | log => "log"
  | log2 => "log2" | sin => "sin" | cos => "cos" | sincos => "sincos" | tan => "tan"
  | asin => "asin" | acos => "acos" | atan => "atan" | sinh => "sinh" | cosh => "cosh"
  | sincosh => "sincosh" | tanh => "tanh" | asinh => "asinh" | acosh => "acosh"
  | atanh => "atanh" | erf => "erf" | add => "add" | sub => "sub" | mul => "mul"
  | truediv => "truediv" | floordiv => "floordiv" | mod => "mod" | lshift => "lshift"
  | rshift => "rshift" | minimum => "minimum" | maximum => "maximum" | atan2 => "atan2"
  | and => "and" | or => "or" | xor => "xor" | fma => "fma" | select => "select"
  | all => "all" | any => "any" | richcmp => "richcmp"

def ofName? (n : String) : Option Op := table.find? (·.name == n)

def arity : Op → Nat
  | add | sub | mul | truediv | floordiv | mod | lshift | rshift | minimum | maximum | atan2
  | and | or | xor | richcmp => 2
  | fma | select => 3
  | _ => 1

theorem getElem?_table (op : Op) : table[op.index]? = some op := by
  cases op <;> rfl

theorem mem_table (op : Op) : op ∈ table :=
  List.mem_of_getElem? (getElem?_table op)

theorem ofName?_name (op : Op) : ofName? op.name = some op := by
  cases op <;> rfl

end Op

/-- Selector of a rich comparison. -/
inductive Comparison where
  | lt | le | eq | ne | gt | ge
deriving DecidableEq, Repr, Inhabited

namespace Comparison

def isOrdering : Comparison → Bool
  | eq | ne => false
  | _ => true

/-- Outcome for two elements in this order, or for unordered ones; those are only unequal. -/
def holds : Comparison → Option Ordering → Bool
  | ne, o => o != some .eq
  | eq, o => o == some .eq
  | lt, o => o == some .lt
  | gt, o => o == some .gt
  | le, o => o == some .lt || o == some .eq
  | ge, o => o == some .gt || o == some .eq

end Comparison

/-- How a call picks its result type, and whether it updates operand 0. -/
inductive Mode where
  | normal
  | inPlace
  | select
  | richCompare
deriving DecidableEq, Repr, Inhabited

namespace Mode

/-- Mode of the calls nested below: only the outermost one works in place. -/
def nested : Mode → Mode
  | inPlace => normal
  | m => m

@[simp] theorem nested_nested (m : Mode) : m.nested.nested = m.nested := by
  cases m <;> rfl

/-- The operand whose type represents the call; a selection has its mask first. -/
def representative : Mode → Nat
  | select => 1
  | _ => 0

/-- The number of operands that a mode insists on. -/
def operandCount? : Mode → Option Nat
  | select => some 3
  | richCompare => some 2
  | _ => none

end Mode

/-- Which counterpart a call uses on the elements of its operands. -/
inductive Slot where
  /-- the element type's own implementation -/
  | method
  /-- the function registered under this name -/
  | function (name : String)
  /-- rich comparison -/
  | compare (cmp : Comparison)
deriving DecidableEq, Repr, Inhabited

end ArrayDispatch
