import ArrayDispatch.Binary.Exact
import ArrayDispatch.Binary.Round

/-!
Floating-point data of a binary format and their bits, exact values and order. All undefined
values are one datum, so equality of data is equality up to the payload of NaN.
-/

namespace ArrayDispatch

/-- A floating-point datum: NaN, or a sign and the number of a magnitude. -/
inductive Binary (f : Format) where
  | nan
  | number (neg : Bool) (mag : Fin (f.infinity + 1))
deriving DecidableEq, Repr

namespace Binary

variable {f : Format}

/-- The datum of magnitude number `n`, the infinity if there is no such magnitude. -/
def ofMagnitude (neg : Bool) (n : Nat) : Binary f :=
  .number neg ⟨min n f.infinity, Nat.lt_succ_of_le (Nat.min_le_right _ _)⟩

def zero : Binary f := ofMagnitude false 0

def infinite (neg : Bool) : Binary f := ofMagnitude neg f.infinity

instance : Inhabited (Binary f) := ⟨zero⟩

/-- Bits as a number: the sign, then the magnitude. A quiet NaN stands for all of them. -/
def toBits : Binary f → Nat
  | .nan => f.infinity + Nat.pow 2 (f.fractionBits - 1)
  | .number neg mag => (if neg then Nat.pow 2 (f.width - 1) else 0) + mag

def ofBits (bits : Nat) : Binary f :=
  let mag := bits % Nat.pow 2 (f.width - 1)
  if f.infinity < mag then .nan else ofMagnitude (bits / Nat.pow 2 (f.width - 1) % 2 = 1) mag

/-- The value of a datum, without rounding. -/
def exact : Binary f → Exact
  | .nan => .nan
  | .number neg mag =>
    if (mag : Nat) = f.infinity then .infinite neg
    else .finite neg (f.significand mag) (f.exponent mag)

/-- The datum nearest to an exact value. -/
def ofExact : Exact → Binary f
  | .nan => .nan
  | .infinite neg => infinite neg
  | .finite neg m e => ofMagnitude neg (f.nearest m 1 e)

def ofInt (z : Int) : Binary f := ofExact (.ofInt z)

def convert (g : Format) (x : Binary f) : Binary g := ofExact x.exact

/-- Both zeros are zero, NaN is not. -/
def isZero : Binary f → Bool
  | .nan => false
  | .number _ mag => (mag : Nat) == 0

def isNaN : Binary f → Bool
  | .nan => true
  | .number .. => false

/-- Order on data other than NaN, which is unordered; the two zeros are equal. -/
def compare? : Binary f → Binary f → Option Ordering
  | .number s m, .number t n => some (compare (Exact.signed s m) (Exact.signed t n))
  | _, _ => none

/-- Integer part, held within `lo` and `hi`; NaN gives zero. -/
def clampInt (lo hi : Int) (x : Binary f) : Int := x.exact.clampInt lo hi

theorem infinity_add_lt (f : Format) :
    f.infinity + Nat.pow 2 (f.fractionBits - 1) < Nat.pow 2 (f.width - 1) := by
  cases f <;> decide

@[simp] theorem ofBits_toBits (x : Binary f) : ofBits x.toBits = x := by
  have hf := infinity_add_lt f
  simp only [Nat.pow_eq] at hf
  have hp : 0 < 2 ^ (f.fractionBits - 1) := Nat.pow_pos (by decide)
  have hw : 0 < 2 ^ (f.width - 1) := Nat.pow_pos (by decide)
  cases x with
  | nan =>
    simp only [toBits, ofBits, Nat.pow_eq, Nat.mod_eq_of_lt hf]
    exact if_pos (by omega)
  | number neg mag =>
    obtain ⟨n, hn⟩ := mag
    have hlt : n < 2 ^ (f.width - 1) := by omega
    have hmod : ((if neg then 2 ^ (f.width - 1) else 0) + n) % 2 ^ (f.width - 1) = n := by
      cases neg <;> simp [Nat.mod_eq_of_lt hlt]
    have hdiv : ((if neg then 2 ^ (f.width - 1) else 0) + n) / 2 ^ (f.width - 1) =
        if neg then 1 else 0 := by
      cases neg <;> simp [Nat.div_eq_of_lt hlt, Nat.add_div_left, hw]
    simp only [toBits, ofBits, Nat.pow_eq, hmod, hdiv]
    rw [if_neg (by omega)]
    cases neg <;> simp [ofMagnitude, Nat.min_eq_left (show n ≤ f.infinity by omega)]

/-- Rounding does not change the value of a datum. -/
@[simp] theorem ofExact_exact (x : Binary f) : ofExact x.exact = x := by
  cases x with
  | nan => rfl
  | number neg mag =>
    obtain ⟨n, hn⟩ := mag
    by_cases h : n = f.infinity
    · simp [exact, ofExact, infinite, ofMagnitude, h]
    · have hle : n ≤ f.infinity := by omega
      simp [exact, ofExact, ofMagnitude, h, f.nearest_self hle, Nat.min_eq_left hle]

@[simp] theorem convert_self (x : Binary f) : x.convert f = x := ofExact_exact x

end Binary

end ArrayDispatch
