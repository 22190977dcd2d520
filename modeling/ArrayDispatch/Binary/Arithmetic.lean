import ArrayDispatch.Binary.Basic

/-!
Correctly rounded arithmetic: each operation is exact first and rounded once.
-/

namespace ArrayDispatch.Binary

variable {f : Format}

def neg : Binary f → Binary f
  | .nan => .nan
  | .number s mag => .number (!s) mag

def abs : Binary f → Binary f
  | .nan => .nan
  | .number _ mag => .number false mag

def add (x y : Binary f) : Binary f := ofExact (x.exact.add y.exact)

def sub (x y : Binary f) : Binary f := x.add y.neg

def mul (x y : Binary f) : Binary f := ofExact (x.exact.mul y.exact)

/-- `x * y + z`, rounded once. -/
def fma (x y z : Binary f) : Binary f := ofExact ((x.exact.mul y.exact).add z.exact)

def div (x y : Binary f) : Binary f :=
  match x.exact, y.exact with
  | .nan, _ => .nan
  | _, .nan => .nan
  | .infinite _, .infinite _ => .nan
  | .infinite s, .finite t .. => infinite (s != t)
  | .finite s .., .infinite t => ofMagnitude (s != t) 0
  | .finite s m d, .finite t n e =>
    if n = 0 then if m = 0 then .nan else infinite (s != t)
    else ofMagnitude (s != t) (f.nearest m n (d - e))

def recip (x : Binary f) : Binary f := (ofInt 1).div x

def floor (x : Binary f) : Binary f := ofExact x.exact.floor

/-- The root is taken of an even power with enough further bits, and an inexact root is marked by
one more bit, which keeps it off the ties. -/
def sqrt (x : Binary f) : Binary f :=
  match x.exact with
  | .nan => .nan
  | .infinite s => if s then .nan else infinite false
  | .finite s m e =>
    if m = 0 then ofMagnitude s 0
    else if s then .nan
    else
      let extra := f.fractionBits + 3
      let n := m * Nat.pow 2 (2 * extra + (e % 2).toNat)
      let r := squareRoot n
      let sticky := if r * r = n then 0 else 1
      ofMagnitude false (f.nearest (2 * r + sticky) 1 (e / 2 - extra - 1))

/-- The lesser of two data, where NaN gives way to the other one. -/
def minimum (x y : Binary f) : Binary f :=
  if x.isNaN then y else if y.isNaN || x.compare? y != some .gt then x else y

/-- The greater of two data, where NaN gives way to the other one. -/
def maximum (x y : Binary f) : Binary f :=
  if x.isNaN then y else if y.isNaN || x.compare? y != some .lt then x else y

/-- `floor (x / y)`, each step rounded. -/
def floorDiv (x y : Binary f) : Binary f := (x.div y).floor

/-- `x - y * floor (x / y)`, each step rounded. -/
def mod (x y : Binary f) : Binary f := x.sub (y.mul (x.floorDiv y))

end ArrayDispatch.Binary
