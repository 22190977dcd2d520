import ArrayDispatch.Operation
import ArrayDispatch.Scalar.Basic
import ArrayDispatch.Types.Key

/-!
Causes of failed dispatches and walks.
-/

namespace ArrayDispatch

/-- What a kernel cannot compute. -/
inductive KernelFault where
  | divisionByZero
  | shiftCount
  /-- no kernel of this name for operands of these kinds, `none` for arrays that are not flat -/
  | unsupported (kernel : String) (kinds : List (Option Kind))
  /-- lengths that are not those of two pairs -/
  | complexLengths (left right : Nat)
  | refused (text : String)
deriving DecidableEq

/-- The operands that an operation has no meaning for. -/
inductive Operands where
  | floats
  | integers
  | ofKind (k : Kind)
deriving DecidableEq

/-- What an operation or a declaration cannot be typed by. -/
inductive TypeFault where
  | missingSelector
  | pairResult (op : Op)
  | undefinedFor (op : Op) (on : Operands)
  | nativeScalar (kind : Kind)
  | representativeScalar
  | tensorScalar (s : Scalar)
  | registered (type : String)
  | tensorElements (type : String)
  | staticBacking (type : String)
  | unknownKey (key : TypeKey)
  | layout (type : String)
  | duplicateField (field type : String)
  | refused (text : String)
deriving DecidableEq

/-- How two trees, or a tree and its declaration, differ. -/
inductive Mismatch where
  | keys
  | lengths (left right : Nat)
  | types
  | fieldCount (type : String) (declared given : Nat)
deriving DecidableEq

inductive Cause where
  | sizes (sizes : List Nat)
  | ranks (shapes : List (List Nat))
  | shapes (shapes : List (List Nat))
  | structural (m : Mismatch)
  | itemAccess (index : Nat)
  | itemAssign (index : Nat) (found : String)
  | nested (op : Op) (operands : List String)
  | unification (source target : String)
  | invalidComparison
  | unknownFunction (name : String)
  | arity (op : Op) (expected found : Nat)
  | kernel (f : KernelFault)
  | notTensor (type : String)
  | type (f : TypeFault)
  /-- the product of two sizes is none: nothing catches this, and the run ends -/
  | overflow
  /-- the bound on nested calls was reached -/
  | tooDeep
deriving DecidableEq

end ArrayDispatch
