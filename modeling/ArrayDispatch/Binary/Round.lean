import ArrayDispatch.Binary.Format

/-!
Rounding to the nearest magnitude of a format, ties to the even significand. Every inexact result
of the library passes through `Format.nearest`.
-/

namespace ArrayDispatch

/-- The integer nearest to `num / den`; a tie goes to the even one. -/
def roundQuotient (num den : Nat) : Nat :=
  let q := num / den
  let r := num % den
  if den < 2 * r ∨ den = 2 * r ∧ q % 2 = 1 then q + 1 else q

/-- Exponent of the leading bit of the positive quotient `num / den`. -/
def leadingExponent (num den : Nat) : Int :=
  let k : Int := (num.log2 : Int) - den.log2
  if num * Nat.pow 2 (-k).toNat < den * Nat.pow 2 k.toNat then k - 1 else k

/-- Number of the magnitude of `f` nearest to `num / den * 2 ^ e`. The unit of the last place is
set by the leading bit or by the smallest exponent, and a carry out of the significand moves on to
the next binade because magnitudes are numbered in order. -/
def Format.nearest (f : Format) (num den : Nat) (e : Int) : Nat :=
  if num = 0 then 0
  else
    let unit := max f.minExponent (leadingExponent num den + e - f.fractionBits)
    let shift := e - unit
    let m := roundQuotient (num * Nat.pow 2 shift.toNat) (den * Nat.pow 2 (-shift).toNat)
    min f.infinity ((unit - f.minExponent).toNat * Nat.pow 2 f.fractionBits + m)

@[simp] theorem roundQuotient_one (n : Nat) : roundQuotient n 1 = n := by
  simp [roundQuotient, Nat.mod_one]

theorem leadingExponent_one {n : Nat} (h : n ≠ 0) : leadingExponent n 1 = n.log2 := by
  have hle : 2 ^ n.log2 ≤ n := (Nat.le_log2 h).mp (Nat.le_refl _)
  have hz : Nat.log2 1 = 0 := by decide
  simp only [leadingExponent, hz]
  rw [if_neg] <;> simp
  simpa using hle

/-- Rounding a whole number of units is exact. -/
theorem Format.nearest_of_unit (f : Format) {m : Nat} {e : Int} (h : m ≠ 0)
    (hu : max f.minExponent ((m.log2 : Int) + e - f.fractionBits) = e) :
    f.nearest m 1 e =
      min f.infinity ((e - f.minExponent).toNat * Nat.pow 2 f.fractionBits + m) := by
  unfold nearest
  rw [if_neg h, leadingExponent_one h, hu]
  simp

/-- The number of a magnitude, found again from its significand and exponent. -/
theorem Format.number_eq (f : Format) (n : Nat) :
    (f.exponent n - f.minExponent).toNat * Nat.pow 2 f.fractionBits + f.significand n = n := by
  have hpos : 0 < 2 ^ f.fractionBits := Nat.pow_pos (by decide)
  have hexp : (f.exponent n - f.minExponent).toNat = n / 2 ^ f.fractionBits - 1 := by
    simp only [exponent, Nat.pow_eq]
    omega
  rw [hexp]
  by_cases hn : n < 2 ^ f.fractionBits
  · simp [significand, hn, Nat.div_eq_of_lt]
  · have hq : 1 ≤ n / 2 ^ f.fractionBits := (Nat.one_le_div_iff hpos).mpr (by omega)
    have hmul := Nat.le_mul_of_pos_right (2 ^ f.fractionBits) hq
    have hdiv := Nat.div_add_mod n (2 ^ f.fractionBits)
    simp only [significand, Nat.pow_eq, if_neg hn]
    rw [Nat.sub_mul, Nat.one_mul, Nat.mul_comm]
    omega

theorem Format.significand_ne_zero (f : Format) {n : Nat} (h : n ≠ 0) : f.significand n ≠ 0 := by
  have hpos : 0 < 2 ^ f.fractionBits := Nat.pow_pos (by decide)
  unfold significand
  rw [Nat.pow_eq]
  split <;> omega

theorem Format.log2_significand_le (f : Format) {n : Nat} (h : n ≠ 0) :
    (f.significand n).log2 ≤ f.fractionBits := by
  have hpos : 0 < 2 ^ f.fractionBits := Nat.pow_pos (by decide)
  have hmod := Nat.mod_lt n hpos
  refine Nat.lt_succ_iff.mp ((Nat.log2_lt (f.significand_ne_zero h)).mpr ?_)
  unfold significand
  rw [Nat.pow_eq, Nat.pow_succ]
  split <;> omega

theorem Format.unit_eq_exponent (f : Format) {n : Nat} (h : n ≠ 0) :
    max f.minExponent (((f.significand n).log2 : Int) + f.exponent n - f.fractionBits) =
      f.exponent n := by
  have hle := f.log2_significand_le h
  by_cases hn : n < 2 ^ f.fractionBits
  · have hexp : f.exponent n = f.minExponent := by simp [exponent, Nat.div_eq_of_lt hn]
    omega
  · have hge : f.fractionBits ≤ (f.significand n).log2 := by
      refine (Nat.le_log2 (f.significand_ne_zero h)).mpr ?_
      simp only [significand, Nat.pow_eq, if_neg hn]
      omega
    have hmin : f.minExponent ≤ f.exponent n := by
      simp only [exponent]
      omega
    omega

theorem Format.nearest_self (f : Format) {n : Nat} (h : n ≤ f.infinity) :
    f.nearest (f.significand n) 1 (f.exponent n) = n := by
  by_cases hz : n = 0
  · simp [hz, nearest, significand]
  · rw [nearest_of_unit f (f.significand_ne_zero hz) (f.unit_eq_exponent hz), number_eq,
      Nat.min_eq_right h]

/-- Integer part of the square root, found bit by bit from the highest. -/
def squareRoot (n : Nat) : Nat :=
  (List.range (n.log2 / 2 + 1)).foldr
    (fun i r => if (r + Nat.pow 2 i) * (r + Nat.pow 2 i) ≤ n then r + Nat.pow 2 i else r) 0

end ArrayDispatch
