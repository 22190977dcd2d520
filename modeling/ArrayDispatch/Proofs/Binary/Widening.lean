import ArrayDispatch.Proofs.Scalar.Word
import ArrayDispatch.Scalar.Basic
import Mathlib.Algebra.Order.Group.Nat

/-!
Widening of single to double precision loses nothing, so an element that is stored in a buffer of
its own kind, which takes floats by way of double precision, is stored as it is.
-/

namespace ArrayDispatch

theorem roundQuotient_mul_mul (num den : Nat) {c : Nat} (hc : 0 < c) :
    roundQuotient (num * c) (den * c) = roundQuotient num den := by
  have hhalf : den * c < 2 * (num % den * c) ↔ den < 2 * (num % den) := by
    rw [← Nat.mul_assoc]
    exact Nat.mul_lt_mul_right hc
  have htie : den * c = 2 * (num % den * c) ↔ den = 2 * (num % den) := by
    rw [← Nat.mul_assoc]
    exact Nat.mul_left_inj (by omega)
  simp only [roundQuotient, Nat.mul_div_mul_right _ _ hc, Nat.mul_mod_mul_right, hhalf, htie]

theorem log2_mul_pow {m : Nat} (hm : m ≠ 0) (k : Nat) : (m * 2 ^ k).log2 = m.log2 + k := by
  induction k with
  | zero => simp
  | succ k ih =>
    have hmk : m * 2 ^ k ≠ 0 := Nat.mul_ne_zero hm (by simp)
    rw [Nat.pow_succ, ← Nat.mul_assoc, Nat.mul_comm, Nat.log2_two_mul hmk, ih]
    omega

namespace Format

variable (f : Format)

/-- Rounding sees the value of `m * 2 ^ e`, however it is split into significand and exponent. -/
theorem nearest_mul_pow (m k : Nat) (e : Int) :
    f.nearest (m * 2 ^ k) 1 (e - k) = f.nearest m 1 e := by
  by_cases hm : m = 0
  · simp [hm, nearest]
  · have hmk : m * 2 ^ k ≠ 0 := Nat.mul_ne_zero hm (by simp)
    have hlead : leadingExponent (m * 2 ^ k) 1 + (e - k) = leadingExponent m 1 + e := by
      rw [leadingExponent_one hm, leadingExponent_one hmk, log2_mul_pow hm]
      omega
    unfold nearest
    simp only [if_neg hm, if_neg hmk, hlead, Nat.pow_eq, Nat.one_mul]
    generalize max f.minExponent (leadingExponent m 1 + e - f.fractionBits) = unit
    have hterms : ∃ c, m * 2 ^ k * 2 ^ (e - k - unit).toNat = m * 2 ^ (e - unit).toNat * 2 ^ c ∧
        2 ^ (-(e - k - unit)).toNat = 2 ^ (-(e - unit)).toNat * 2 ^ c := by
      refine ⟨(-(e - k - unit)).toNat - (-(e - unit)).toNat, ?_, ?_⟩
      · rw [Nat.mul_assoc, Nat.mul_assoc, ← Nat.pow_add, ← Nat.pow_add]
        congr 2
        omega
      · rw [← Nat.pow_add]
        congr 1
        omega
    obtain ⟨c, hnum, hden⟩ := hterms
    rw [hnum, hden, roundQuotient_mul_mul _ _ (Nat.pow_pos (by decide))]

/-- A significand with its leading bit, in the binade `q` steps above the lowest. -/
theorem significand_exponent_of_lt {q s : Nat} (hge : 2 ^ f.fractionBits ≤ s)
    (hlt : s < 2 ^ (f.fractionBits + 1)) :
    f.significand (q * 2 ^ f.fractionBits + s) = s ∧
      f.exponent (q * 2 ^ f.fractionBits + s) = f.minExponent + q := by
  rw [Nat.pow_succ] at hlt
  have hmod : s % 2 ^ f.fractionBits = s - 2 ^ f.fractionBits := by
    rw [Nat.mod_eq_sub_mod hge, Nat.mod_eq_of_lt (by omega)]
  have hdiv : s / 2 ^ f.fractionBits = 1 :=
    Nat.div_eq_of_lt_le (by omega) (by omega)
  constructor
  · simp only [significand, Nat.pow_eq, Nat.mul_add_mod_self_right, hmod]
    rw [if_neg (by omega)]
    omega
  · simp only [exponent, Nat.pow_eq]
    rw [Nat.add_comm, Nat.add_mul_div_right _ _ (Nat.pow_pos (by decide)), hdiv]
    omega

end Format

namespace Binary

/-- Magnitudes of single precision have a leading bit in double precision. -/
theorem exact_ofMagnitude_nearest {n : Nat} (hz : n ≠ 0) (hn : n < Format.single.infinity)
    (neg : Bool) :
    ∃ k : Nat, (ofMagnitude neg (Format.double.nearest (Format.single.significand n) 1
        (Format.single.exponent n)) : Binary .double).exact =
      .finite neg (Format.single.significand n * 2 ^ k) (Format.single.exponent n - k) := by
  have hlog := Format.single.log2_significand_le hz
  have hm := Format.single.significand_ne_zero hz
  have hmin : (-149 : Int) ≤ Format.single.exponent n := by
    have h : Format.single.minExponent = -149 := rfl
    simp only [Format.exponent, h]
    omega
  have hmax : Format.single.exponent n ≤ 104 := by
    have h : Format.single.minExponent = -149 := rfl
    have hlt : n / Nat.pow 2 Format.single.fractionBits < 255 := Nat.div_lt_of_lt_mul hn
    simp only [Format.exponent, h]
    omega
  generalize Format.single.significand n = m at hlog hm ⊢
  generalize Format.single.exponent n = e at hmin hmax ⊢
  -- the significand is moved up to the leading place of double precision
  refine ⟨52 - m.log2, ?_⟩
  have hwide : Format.double.minExponent = -1074 ∧ Format.double.fractionBits = 52 ∧
      Format.double.infinity = 2047 * 2 ^ 52 ∧ Format.single.fractionBits = 23 :=
    ⟨rfl, rfl, rfl, rfl⟩
  obtain ⟨hdmin, hdbits, hdinf, hsbits⟩ := hwide
  have hlead : (m * 2 ^ (52 - m.log2)).log2 = 52 := by
    rw [log2_mul_pow hm]
    omega
  have hne : m * 2 ^ (52 - m.log2) ≠ 0 := Nat.mul_ne_zero hm (by simp)
  obtain ⟨hge, hlt⟩ := (Nat.log2_eq_iff hne).mp hlead
  rw [← Format.nearest_mul_pow _ m (52 - m.log2), Format.nearest_of_unit _ hne (by omega)]
  obtain ⟨hsig, hexp⟩ := Format.double.significand_exponent_of_lt
    (q := (e - (52 - m.log2 : Nat) - Format.double.minExponent).toNat) hge hlt
  have hfinite : (e - (52 - m.log2 : Nat) - Format.double.minExponent).toNat *
      2 ^ Format.double.fractionBits + m * 2 ^ (52 - m.log2) < Format.double.infinity := by
    rw [hdbits, hdinf]
    omega
  simp only [exact, ofMagnitude, Nat.pow_eq, Nat.min_eq_right (Nat.le_of_lt hfinite),
    Nat.min_eq_left (Nat.le_of_lt hfinite), hsig, hexp]
  rw [if_neg (Nat.ne_of_lt hfinite)]
  congr 1
  omega

theorem convert_convert (x : Binary .single) : (x.convert .double).convert .single = x := by
  cases x with
  | nan => rfl
  | number neg mag =>
    obtain ⟨n, hn⟩ := mag
    by_cases hinf : n = Format.single.infinity
    · subst hinf
      cases neg <;> rfl
    · have hexact : (Binary.number neg ⟨n, hn⟩ : Binary .single).exact =
          .finite neg (Format.single.significand n) (Format.single.exponent n) := if_neg hinf
      by_cases hz : n = 0
      · subst hz
        cases neg <;> rfl
      · obtain ⟨k, hk⟩ := exact_ofMagnitude_nearest hz (by omega) neg
        rw [convert, convert, hexact, ofExact, hk, ofExact, Format.nearest_mul_pow]
        exact (congrArg ofExact hexact).symm.trans (ofExact_exact _)

end Binary

namespace Scalar

theorem store_self (k : Kind) (x : k.Elem) : Scalar.store ⟨k, x⟩ k = x := by
  cases k with
  | bool => rfl
  | integer t => exact (IntType.ofInt_toInt_ofInt t.width_le_widest _).trans (t.ofInt_toInt x)
  | float f =>
    cases f with
    | single => exact Binary.convert_convert x
    | double => simp [store, toDouble]

end Scalar

end ArrayDispatch
