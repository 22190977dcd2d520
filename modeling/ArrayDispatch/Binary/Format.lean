/-!
The two binary floating-point formats. The magnitudes of a format, zero and the infinity included,
are numbered in order of size, so that the next magnitude is the next number.
-/

namespace ArrayDispatch

inductive Format where
  | single
  | double
deriving DecidableEq, Repr, Inhabited

namespace Format

/-- Stored bits of the significand; the leading bit of a normal number is not stored. -/
def fractionBits : Format → Nat
  | single => 23
  | double => 52

def exponentBits : Format → Nat
  | single => 8
  | double => 11

def width (f : Format) : Nat :=
  1 + f.exponentBits + f.fractionBits

/-- The smallest positive number is two to this power. -/
def minExponent (f : Format) : Int :=
  2 - Nat.pow 2 (f.exponentBits - 1) - f.fractionBits

/-- The number of the infinity, which follows the largest finite magnitude. -/
def infinity (f : Format) : Nat :=
  (Nat.pow 2 f.exponentBits - 1) * Nat.pow 2 f.fractionBits

/-- Magnitude number `n` is `significand n * 2 ^ exponent n`. -/
def significand (f : Format) (n : Nat) : Nat :=
  if n < Nat.pow 2 f.fractionBits then n
  else Nat.pow 2 f.fractionBits + n % Nat.pow 2 f.fractionBits

/-- Exponent of the last place of magnitude number `n`. -/
def exponent (f : Format) (n : Nat) : Int :=
  f.minExponent + (n / Nat.pow 2 f.fractionBits - 1 : Nat)

end Format

end ArrayDispatch
