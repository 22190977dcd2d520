import ArrayDispatch.Binary.Elementary
import ArrayDispatch.Scalar.Integer

/-!
Element-level operations on scalars. Operands of several kinds are promoted to the highest one
first; `truediv` of integers is a double.
-/

namespace ArrayDispatch

/-- An operation that has no meaning for its operands. -/
def undefinedFor {α : Type} (op : Op) (on : Operands) : Attempt α :=
  throw (.type (.undefinedFor op on))

namespace Binary

variable {f : Format}

def unary (op : Op) (x : Binary f) : Attempt (Binary f) :=
  match op with
  | .neg => pure x.neg
  | .abs => pure x.abs
  | .sqrt => pure x.sqrt
  | .rcp => pure x.recip
  | .rsqrt => pure x.sqrt.recip
  | .cbrt => pure x.cbrt
  | .exp => pure x.exp
  | .exp2 => pure x.exp2
  | .log => pure x.log
  | .log2 => pure x.log2
  | .sin => pure x.sin
  | .cos => pure x.cos
  | .tan => pure x.tan
  | .asin => pure x.asin
  | .acos => pure x.acos
  | .atan => pure x.atan
  | .sinh => pure x.sinh
  | .cosh => pure x.cosh
  | .tanh => pure x.tanh
  | .asinh => pure x.asinh
  | .acosh => pure x.acosh
  | .atanh => pure x.atanh
  | .erf => pure x.erf
  | op => undefinedFor op .floats

def binary (op : Op) (x y : Binary f) : Attempt (Binary f) :=
  match op with
  | .add => pure (x.add y)
  | .sub => pure (x.sub y)
  | .mul => pure (x.mul y)
  | .truediv => pure (x.div y)
  | .floordiv => pure (x.floorDiv y)
  | .mod => pure (x.mod y)
  | .minimum => pure (x.minimum y)
  | .maximum => pure (x.maximum y)
  | .atan2 => pure (x.atan2 y)
  | op => undefinedFor op .floats

end Binary

namespace IntType

variable (t : IntType)

def unary (op : Op) (x : t.Word) : Attempt t.Word :=
  match op with
  | .neg => pure (t.neg x)
  | .abs => pure (t.abs x)
  | .invert => pure (~~~x)
  | op => undefinedFor op .integers

def binary (op : Op) (x y : t.Word) : Attempt t.Word :=
  match op with
  | .add => pure (x + y)
  | .sub => pure (x - y)
  | .mul => pure (x * y)
  | .floordiv => t.floorDiv x y
  | .mod => t.mod x y
  | .lshift => t.shiftLeft x y
  | .rshift => t.shiftRight x y
  | .minimum => pure (t.minimum x y)
  | .maximum => pure (t.maximum x y)
  | .and => pure (x &&& y)
  | .or => pure (x ||| y)
  | .xor => pure (x ^^^ y)
  | op => undefinedFor op .integers

end IntType

namespace Scalar

def unary (op : Op) : Scalar → Attempt Scalar
  | ⟨.bool, b⟩ => if op = .invert then pure (ofBool !b) else undefinedFor op (.ofKind .bool)
  | ⟨.integer t, x⟩ => (t.unary op x).map (⟨.integer t, ·⟩)
  | ⟨.float f, x⟩ => (x.unary op).map (⟨.float f, ·⟩)

def onElems (op : Op) : (k : Kind) → (x y : k.Elem) → Attempt k.Elem
  | .bool, x, y =>
    match op with
    | .and | .minimum => pure (x && y)
    | .or | .maximum => pure (x || y)
    | .xor => pure (x != y)
    | op => undefinedFor op (.ofKind .bool)
  | .integer t, x, y => t.binary op x y
  | .float _, x, y => x.binary op y

def binary (op : Op) (a b : Scalar) : Attempt Scalar :=
  let k := a.kind.promote b.kind
  if op = .truediv ∧ k.isInteger then pure ⟨.float .double, a.toDouble.div b.toDouble⟩
  else (onElems op k (a.toElem k) (b.toElem k)).map (⟨k, ·⟩)

/-- `x * y + z` on three elements of one kind. -/
def fmaElems : (k : Kind) → (x y z : k.Elem) → Attempt k.Elem
  | .bool, _, _, _ => undefinedFor .fma (.ofKind .bool)
  | .integer _, x, y, z => pure (x * y + z)
  | .float _, x, y, z => pure (x.fma y z)

def fma (a b c : Scalar) : Attempt Scalar :=
  let k := (a.kind.promote b.kind).promote c.kind
  (fmaElems k (a.toElem k) (b.toElem k) (c.toElem k)).map (⟨k, ·⟩)

/-- The alternative that the mask picks, in the higher kind of the two. -/
def select (mask t f : Scalar) : Scalar :=
  (if mask.truth then t else f).cast (t.kind.promote f.kind)

/-- Order of two elements of one kind; NaN is unordered. -/
def order? : (k : Kind) → (x y : k.Elem) → Option Ordering
  | .bool, x, y => some (compare x y)
  | .integer t, x, y => some (compare (t.toInt x) (t.toInt y))
  | .float _, x, y => x.compare? y

def compares (cmp : Comparison) (a b : Scalar) : Bool :=
  let k := a.kind.promote b.kind
  cmp.holds (order? k (a.toElem k) (b.toElem k))

/-- Value equality, under which NaN differs from itself and the zeros are equal. -/
def equals (a b : Scalar) : Bool :=
  a.kind = b.kind && compares .eq a b

def eval (op : Op) (slot : Slot) (args : List Scalar) : Attempt Scalar :=
  if args.length ≠ op.arity then throw (.arity op op.arity args.length)
  else
    match op, args with
    | .richcmp, [a, b] =>
      match slot with
      | .compare cmp => pure (ofBool (compares cmp a b))
      | _ => throw (.type .missingSelector)
    | .select, [mask, t, f] => pure (select mask t f)
    | .all, [x] | .any, [x] => pure (ofBool x.truth)
    | .sincos, _ | .sincosh, _ => throw (.type (.pairResult op))
    | _, [x] => unary op x
    | _, [a, b] => binary op a b
    | _, [a, b, c] => fma a b c
    | _, _ => throw (.arity op op.arity args.length)

end Scalar

end ArrayDispatch
