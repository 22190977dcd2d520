import ArrayDispatch.Scalar.Kind
import ArrayDispatch.Binary.Decimal

/-!
Scalars: single elements with their kind, and the conversions between kinds.
-/

namespace ArrayDispatch

structure Scalar where
  kind : Kind
  elem : kind.Elem
deriving DecidableEq

namespace Scalar

instance : Inhabited Scalar := ⟨⟨.bool, false⟩⟩

def ofBool (b : Bool) : Scalar := ⟨.bool, b⟩

def zero (k : Kind) : Scalar := ⟨k, k.zero⟩

/-- Anything but zero is true. -/
def truth : Scalar → Bool
  | ⟨.bool, b⟩ => b
  | ⟨.integer _, x⟩ => x != 0
  | ⟨.float _, x⟩ => !x.isZero

/-- The word of a 64-bit type that a scalar becomes. Integers wrap around; a float drops its
fraction and is held within the range of the type. -/
def toWord (t : IntType) : Scalar → t.Word
  | ⟨.bool, b⟩ => t.ofInt (if b then 1 else 0)
  | ⟨.integer u, x⟩ => t.ofInt (u.toInt x)
  | ⟨.float _, x⟩ => t.ofInt (x.clampInt t.low t.high)

def toDouble : Scalar → Binary .double
  | ⟨.bool, b⟩ => .ofInt (if b then 1 else 0)
  | ⟨.integer t, x⟩ => .ofInt (t.toInt x)
  | ⟨.float _, x⟩ => x.convert .double

/-- The element that a buffer of kind `k` holds once the scalar is stored. Integers are cut
from words of 64 bits and of their signedness, and single precision is rounded from double. -/
def store (s : Scalar) : (k : Kind) → k.Elem
  | .bool => s.truth
  | .integer t => t.ofInt (t.widest.toInt (s.toWord t.widest))
  | .float f => s.toDouble.convert f

/-- The element of kind `k` that a scalar becomes: its own one if it has that kind. -/
def toElem (s : Scalar) (k : Kind) : k.Elem :=
  if h : s.kind = k then h ▸ s.elem else s.store k

def cast (s : Scalar) (k : Kind) : Scalar := ⟨k, s.toElem k⟩

/-- Text of the value: floats with the fewest digits that read back, never with an exponent. -/
def text : Scalar → String
  | ⟨.bool, b⟩ => if b then "true" else "false"
  | ⟨.integer t, x⟩ => toString (t.toInt x)
  | ⟨.float _, x⟩ => x.plainText

@[simp] theorem toElem_self (s : Scalar) : s.toElem s.kind = s.elem := by
  simp [toElem]

@[simp] theorem kind_cast (s : Scalar) (k : Kind) : (s.cast k).kind = k := rfl

@[simp] theorem cast_self (s : Scalar) : s.cast s.kind = s := by
  simp [cast]

end Scalar

end ArrayDispatch
