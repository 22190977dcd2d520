import ArrayDispatch.Binary.Basic
import Mathlib.Algebra.Order.Field.Power
import Mathlib.Algebra.Order.Floor.Ring
import Mathlib.Data.Rat.Floor
import Mathlib.Order.WithBot

/-!
The value of a floating-point datum as a rational number or an infinity, and its integer part.
Truncation of an exact number drops the fraction of its value.
-/

namespace ArrayDispatch

/-- A rational number or one of the two infinities. -/
abbrev Extended : Type := WithBot (WithTop ℚ)

abbrev Extended.rational (q : ℚ) : Extended := (q : WithTop ℚ)

/-- The value of an exact number. The undefined one has none. -/
def Exact.value? : Exact → Option Extended
  | .nan => none
  | .infinite neg => some (if neg then ⊥ else ⊤)
  | .finite neg m e => some (.rational (signed neg m * 2 ^ e))

def Binary.value? {f : Format} (x : Binary f) : Option Extended := x.exact.value?

/-- The integer part of a rational number, which is rounded toward zero. -/
def integerPart (q : ℚ) : Int := if q < 0 then ⌈q⌉ else ⌊q⌋

theorem integerPart_neg (q : ℚ) : integerPart (-q) = -integerPart q := by
  unfold integerPart
  rcases lt_trichotomy q 0 with hneg | rfl | hpos
  · rw [if_neg (by linarith), if_pos hneg, Int.floor_neg]
  · simp
  · rw [if_pos (by linarith), if_neg (by linarith), Int.ceil_neg]

theorem integerPart_of_nonneg {q : ℚ} (h : 0 ≤ q) : integerPart q = ⌊q⌋ := if_neg (not_lt.mpr h)

theorem integerPart_mono {p q : ℚ} (hpq : p ≤ q) : integerPart p ≤ integerPart q := by
  unfold integerPart
  by_cases hp : p < 0
  · rw [if_pos hp]
    split
    · exact Int.ceil_mono hpq
    · next hq =>
      have hceil : ⌈p⌉ ≤ 0 := Int.ceil_le.mpr (by simpa using hp.le)
      exact hceil.trans (Int.floor_nonneg.mpr (not_lt.mp hq))
  · rw [if_neg hp, if_neg (by linarith)]
    exact Int.floor_mono hpq

/-- Whole magnitudes are shifted to the left, fractions are shifted out to the right. -/
theorem integerPart_magnitude (m : Nat) (e : Int) :
    integerPart ((m : ℚ) * 2 ^ e) =
      (if 0 ≤ e then m * Nat.pow 2 e.toNat else m / Nat.pow 2 (-e).toNat : Nat) := by
  rw [integerPart_of_nonneg (by positivity)]
  split
  · next he =>
    lift e to ℕ using he
    rw [zpow_natCast, Int.toNat_natCast]
    exact_mod_cast Int.floor_natCast (m * 2 ^ e)
  · next he =>
    obtain ⟨k, rfl⟩ : ∃ k : Nat, e = -k := ⟨(-e).toNat, by omega⟩
    rw [zpow_neg, zpow_natCast, ← div_eq_mul_inv, neg_neg, Int.toNat_natCast]
    exact_mod_cast Rat.floor_natCast_div_natCast m (2 ^ k)

namespace Exact

theorem truncate_eq (neg : Bool) (m : Nat) (e : Int) :
    truncate neg m e = integerPart ((signed neg m : ℚ) * 2 ^ e) := by
  have hmagnitude := integerPart_magnitude m e
  cases neg with
  | false =>
    simp only [truncate, signed, Bool.false_eq_true, if_false, Int.cast_natCast]
    exact hmagnitude.symm
  | true =>
    simp only [truncate, signed, if_true, Int.cast_neg, Int.cast_natCast, neg_mul]
    rw [integerPart_neg, hmagnitude]

end Exact

end ArrayDispatch
