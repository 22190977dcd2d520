import ArrayDispatch.Text.Quoted
import ArrayDispatch.Text.Series
import ArrayDispatch.Unify

/-!
The registry: types, named element functions and the unifier. An element function is given the
means to dispatch further calls, so the registry holds no reference to itself.
-/

namespace ArrayDispatch

/-- Which operation is applied, in which mode and through which counterpart. -/
structure Call where
  mode : Mode
  op : Op
  slot : Slot
deriving DecidableEq, Repr

namespace Call

def expected (c : Call) : Nat := c.mode.operandCount?.getD c.op.arity

/-- The operand whose type represents a call. -/
def representative (c : Call) (operands : List Value) : Value :=
  operands.getD c.mode.representative (.scalar default)

def frame (c : Call) (typeName : String) : Frame :=
  match c.slot with
  | .function name => .function name typeName
  | _ => .method typeName c.op

end Call

/-- Applies a call to the elements at one position. New objects are made at the site. -/
def ElementCall : Type := Site → Call → List Value → Dispatched Value

/-- A function on elements that can be registered under a name. -/
def ElementFunction : Type :=
  TypeTable → ElementCall → Site → List Value → Dispatched Value

/-- Configuration of the dispatcher. -/
structure Registry where
  types : TypeTable
  functions : List (String × ElementFunction)
  unifier : Unifier

namespace Registry

/-- The function that a registry has for an operation from the start. -/
def operationFunction (op : Op) : ElementFunction := fun _ call site args =>
  call site ⟨if op = .select then .select else .normal, op, .function op.name⟩ args

/-- A registry without types. It has a function for every operation but the rich comparison. -/
def empty : Registry where
  types := .empty
  functions := (Op.table.filter (· != .richcmp)).map fun op => (op.name, operationFunction op)
  unifier := .promote

def function? (r : Registry) (name : String) : Option ElementFunction :=
  r.functions.lookup name

/-- Makes a function known under a name, in place of an earlier one. -/
def registerFunction (r : Registry) (name : String) (f : ElementFunction) : Registry :=
  { r with functions := r.functions.filter (·.1 != name) ++ [(name, f)] }

def register (r : Registry) (d : TypeDecl) : Attempt (Registry × TypeKey) := do
  let (types, key) ← r.types.register d
  pure ({ r with types }, key)

def withUnifier (r : Registry) (u : Unifier) : Registry := { r with unifier := u }

/-- Text of the registry: names of the types in order of their keys, number of functions. -/
def text (r : Registry) : String :=
  "Registry \x7b types: " ++ bracketed (r.types.types.map fun d => Quoted.quote d.name) ++
    ", functions: " ++ toString r.functions.length ++ " \x7d"

end Registry

end ArrayDispatch
