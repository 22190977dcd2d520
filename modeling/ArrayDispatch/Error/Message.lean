import ArrayDispatch.Error.Basic
import ArrayDispatch.Text.Series

/-!
Wording of errors: the frames from the outside in, then the cause.
-/

namespace ArrayDispatch

def KernelFault.message : KernelFault → String
  | divisionByZero => "integer division by zero"
  | shiftCount => "negative shift count"
  | unsupported kernel kinds =>
    let names := kinds.map fun k => (k.map Kind.name).getD "nested"
    kernel ++ " has no kernel for (" ++ ", ".intercalate names ++ ")"
  | complexLengths left right =>
    "complex multiplication needs two [re, im] pairs, got lengths " ++ toString left ++ " and " ++
      toString right
  | refused text => text

def Operands.text : Operands → String
  | floats => "floats"
  | integers => "integers"
  | ofKind k => k.name

def TypeFault.message : TypeFault → String
  | missingSelector => "rich comparison requires a comparison selector"
  | pairResult op => op.name ++ " produces a pair and has no element-wise form"
  | undefinedFor op on => op.name ++ " is not defined for " ++ on.text
  | nativeScalar kind => "native kernel received scalar " ++ kind.name
  | representativeScalar => "representative operand is not an array"
  | tensorScalar s => "tensor operation produced scalar " ++ s.text
  | registered type => "type '" ++ type ++ "' is already registered"
  | tensorElements type => "'" ++ type ++ "' cannot hold tensor elements"
  | staticBacking type => "tensor '" ++ type ++ "' needs a dynamic array type"
  | unknownKey key => "no type registered under key " ++ key.text
  | layout type => "data does not match the layout of '" ++ type ++ "'"
  | duplicateField field type => "field '" ++ field ++ "' is declared twice on '" ++ type ++ "'"
  | refused text => text

def Mismatch.message : Mismatch → String
  | keys => "Dictionaries have mismatched keys."
  | lengths left right =>
    "Incompatible input lengths (" ++ toString left ++ " and " ++ toString right ++ ")."
  | types => "Mismatched input types."
  | fieldCount type declared given =>
    "'" ++ type ++ "' declares " ++ toString declared ++ " fields, got " ++ toString given

def Cause.message : Cause → String
  | sizes ns => "invalid input array sizes (" ++ enumeration (ns.map toString) ++ ")"
  | ranks ss => "Operands have incompatible ranks: " ++ enumeration (ss.map shapeText) ++ "."
  | shapes ss => "Operands have incompatible shapes: " ++ enumeration (ss.map shapeText) ++ "."
  | structural m => m.message
  | itemAccess i => "Item retrieval failed at index " ++ toString i ++ "!"
  | itemAssign i found =>
    "Item assignment failed at index " ++ toString i ++ " (value of type '" ++ found ++ "')!"
  | nested op operands =>
    "Nested operation failed: " ++ op.name ++ " is not defined for " ++
      ", ".intercalate operands
  | unification source target => "cannot promote '" ++ source ++ "' to '" ++ target ++ "'"
  | invalidComparison =>
    "Inequality comparisons are only permitted on ordinary arithmetic arrays. " ++
      "They are suppressed for complex arrays, quaternions, matrices, and arrays of pointers."
  | unknownFunction name => "no function named '" ++ name ++ "' is registered"
  | arity op expected found =>
    op.name ++ " expects " ++ toString expected ++ " operand(s), got " ++ toString found
  | kernel f => "kernel failed: " ++ f.message
  | notTensor name => "'" ++ name ++ "' is not a tensor type"
  | type f => "Type error: " ++ f.message
  | overflow => "attempt to multiply with overflow"
  | tooDeep => "nested calls exceed their bound"

def Frame.text : Frame → String
  | method type op => type ++ "." ++ op.name ++ "()"
  | function name type => "minapply." ++ name ++ "(<" ++ type ++ ">)"
  | element i => "element " ++ toString i
  | walk walker [type] =>
    walker ++ "(): error encountered while processing an argument of type '" ++ type ++ "'"
  | walk walker types =>
    walker ++ "(): error encountered while processing arguments of type " ++
      " and ".intercalate (types.map fun t => "'" ++ t ++ "'")

def DispatchError.message (e : DispatchError) : String :=
  String.join (e.frames.reverse.map fun f => f.text ++ ": ") ++ e.cause.message

end ArrayDispatch
