/-!
Exact binary arithmetic: signed numbers `± m * 2 ^ e` of any size, closed under sum and product,
with signed zeros, infinities and an undefined value.
-/

namespace ArrayDispatch

/-- The exact value of a floating-point computation before it is rounded. -/
inductive Exact where
  | nan
  | infinite (neg : Bool)
  | finite (neg : Bool) (mant : Nat) (exp : Int)
deriving DecidableEq, Repr

namespace Exact

/-- The integer `± n`. -/
def signed (neg : Bool) (n : Nat) : Int :=
  if neg then -(n : Int) else n

def ofInt (z : Int) : Exact :=
  .finite (z < 0) z.natAbs 0

/-- A zero sum is negative only if both terms are. -/
def add : Exact → Exact → Exact
  | .nan, _ => .nan
  | _, .nan => .nan
  | .infinite s, .infinite t => if s = t then .infinite s else .nan
  | .infinite s, .finite .. => .infinite s
  | .finite .., .infinite t => .infinite t
  | .finite s m d, .finite t n e =>
    let low := min d e
    let sum := signed s (m * Nat.pow 2 (d - low).toNat) + signed t (n * Nat.pow 2 (e - low).toNat)
    .finite (if sum = 0 then s && t else sum < 0) sum.natAbs low

/-- Zero times infinity is undefined. -/
def mul : Exact → Exact → Exact
  | .nan, _ => .nan
  | _, .nan => .nan
  | .infinite s, .infinite t => .infinite (s != t)
  | .infinite s, .finite t n _ => if n = 0 then .nan else .infinite (s != t)
  | .finite s m _, .infinite t => if m = 0 then .nan else .infinite (s != t)
  | .finite s m d, .finite t n e => .finite (s != t) (m * n) (d + e)

/-- Largest integer that is not above; a negative zero stays. -/
def floor : Exact → Exact
  | .finite neg m e =>
    if 0 ≤ e then .finite neg m e
    else
      let den := Nat.pow 2 (-e).toNat
      .finite neg (if neg then (m + den - 1) / den else m / den) 0
  | x => x

/-- Integer part of a finite value: the fraction is dropped, so rounding is toward zero. -/
def truncate (neg : Bool) (m : Nat) (e : Int) : Int :=
  signed neg (if 0 ≤ e then m * Nat.pow 2 e.toNat else m / Nat.pow 2 (-e).toNat)

/-- Integer part, held within `lo` and `hi`; the undefined value gives zero. -/
def clampInt (lo hi : Int) : Exact → Int
  | .nan => 0
  | .infinite neg => if neg then lo else hi
  | .finite neg m e => max lo (min hi (truncate neg m e))

end Exact

end ArrayDispatch
