import ArrayDispatch.Error.Basic

/-!
Arithmetic on the words of an integer type. It wraps around; division rounds down.
-/

namespace ArrayDispatch.IntType

variable (t : IntType)

def neg (x : t.Word) : t.Word := -x

def abs (x : t.Word) : t.Word := if t.signed && x.msb then -x else x

/-- Quotient rounded down. The quotient toward zero is one too high where a remainder is left and
its sign is not that of the divisor. -/
def floorDiv (x y : t.Word) : Attempt t.Word :=
  if y = 0 then throw (.kernel .divisionByZero)
  else if t.signed then
    let r := x.srem y
    pure (if r ≠ 0 ∧ r.msb ≠ y.msb then x.sdiv y - 1 else x.sdiv y)
  else pure (x.udiv y)

/-- Remainder of the quotient rounded down, which has the sign of the divisor. -/
def mod (x y : t.Word) : Attempt t.Word :=
  if y = 0 then throw (.kernel .divisionByZero)
  else if t.signed then
    let r := x.srem y
    pure (if r ≠ 0 ∧ r.msb ≠ y.msb then r + y else r)
  else pure (x.umod y)

/-- A count of places must fit 32 bits without sign, and counts modulo the width. -/
def shiftCount (y : t.Word) : Attempt Nat :=
  let n := t.toInt y
  if 0 ≤ n ∧ n < 0x100000000 then pure (n.toNat % t.width) else throw (.kernel .shiftCount)

def shiftLeft (x y : t.Word) : Attempt t.Word :=
  (t.shiftCount y).map (x <<< ·)

def shiftRight (x y : t.Word) : Attempt t.Word :=
  (t.shiftCount y).map fun n => if t.signed then x.sshiftRight n else x >>> n

def minimum (x y : t.Word) : t.Word := if t.toInt y < t.toInt x then y else x

def maximum (x y : t.Word) : t.Word := if t.toInt y < t.toInt x then x else y

end ArrayDispatch.IntType
