import ArrayDispatch.Scalar.Kind
import Mathlib.Data.Int.ModEq
import Mathlib.Algebra.Order.Group.Int
import Mathlib.Algebra.Order.Group.Unbundled.Int
import Mathlib.Algebra.Order.Group.Abs

/-!
Words of an integer type and the integers they stand for. Reading the word of an integer reduces the
integer modulo `2 ^ width` into the range of the type, and taking the word of an integer commutes
with sums, differences and products.
-/

namespace ArrayDispatch.IntType

variable (t : IntType)

def Holds (z : Int) : Prop := t.low ≤ z ∧ z ≤ t.high

instance (z : Int) : Decidable (t.Holds z) := inferInstanceAs (Decidable (_ ∧ _))

/-- `r` is `z` reduced modulo `2 ^ width` into the range of the type. -/
structure Reduces (z r : Int) : Prop where
  holds : t.Holds r
  modEq : r ≡ z [ZMOD 2 ^ t.width]

theorem high_eq : t.high = t.low + 2 ^ t.width - 1 := by
  cases t <;> rfl

theorem range_cases : t.low = 0 ∨ t.low = -2 ^ 31 ∧ t.high = 2 ^ 31 - 1 ∨
    t.low = -2 ^ 63 ∧ t.high = 2 ^ 63 - 1 := by
  cases t <;> decide

variable {t}

theorem Reduces.unique {z r r' : Int} (h : t.Reduces z r) (h' : t.Reduces z r') : r = r' := by
  have hdvd : (2 : Int) ^ t.width ∣ r - r' := (h'.modEq.trans h.modEq.symm).dvd
  have hhigh := t.high_eq
  have hlow := h.holds
  have hlow' := h'.holds
  unfold Holds at hlow hlow'
  have hlt : |r - r'| < 2 ^ t.width := abs_sub_lt_iff.mpr ⟨by omega, by omega⟩
  exact sub_eq_zero.mp (Int.eq_zero_of_abs_lt_dvd hdvd hlt)

theorem reduces_of_holds {z : Int} (h : t.Holds z) : t.Reduces z z := ⟨h, Int.ModEq.refl z⟩

variable (t)

theorem holds_toInt (x : t.Word) : t.Holds (t.toInt x) := by
  have hlow := x.le_toInt
  have hhigh := x.toInt_lt
  have hlt := x.isLt
  unfold Holds low high toInt
  split
  · exact ⟨by simpa using hlow, by simpa using Int.le_sub_one_of_lt hhigh⟩
  · exact ⟨by simp, by simpa using Int.le_sub_one_of_lt (Int.ofNat_lt.mpr hlt)⟩

theorem toInt_ofInt_modEq (z : Int) : t.toInt (t.ofInt z) ≡ z [ZMOD 2 ^ t.width] := by
  have hcast : ((2 ^ t.width : Nat) : Int) = 2 ^ t.width := by simp
  unfold toInt ofInt
  split
  · rw [BitVec.toInt_ofInt, ← hcast]
    exact Int.bmod_emod
  · rw [BitVec.toNat_ofInt, Int.toNat_of_nonneg (Int.emod_nonneg _ (by simp)), ← hcast]
    exact Int.mod_modEq z _

/-- Reading the word of an integer reduces the integer. -/
theorem reduces_ofInt (z : Int) : t.Reduces z (t.toInt (t.ofInt z)) :=
  ⟨t.holds_toInt _, t.toInt_ofInt_modEq z⟩

variable {t}

theorem toInt_ofInt {z : Int} (h : t.Holds z) : t.toInt (t.ofInt z) = z :=
  (t.reduces_ofInt z).unique (reduces_of_holds h)

theorem ofInt_eq_of_modEq {y z : Int} (h : y ≡ z [ZMOD 2 ^ t.width]) : t.ofInt y = t.ofInt z := by
  have hy : t.Reduces z (t.toInt (t.ofInt y)) :=
    ⟨t.holds_toInt _, (t.toInt_ofInt_modEq y).trans h⟩
  rw [← t.ofInt_toInt (t.ofInt y), hy.unique (t.reduces_ofInt z), t.ofInt_toInt]

/-- A word that is cut from a wider one forgets the wider type. -/
theorem ofInt_toInt_ofInt {u : IntType} (hw : t.width ≤ u.width) (z : Int) :
    t.ofInt (u.toInt (u.ofInt z)) = t.ofInt z :=
  ofInt_eq_of_modEq ((u.toInt_ofInt_modEq z).of_dvd (pow_dvd_pow 2 hw))

theorem width_le_widest (t : IntType) : t.width ≤ t.widest.width := by
  cases t <;> decide

variable (t) (x y : Int)

theorem ofInt_zero : t.ofInt 0 = 0 := by
  simp [ofInt]

theorem ofInt_one : t.ofInt 1 = 1 := by
  simp [ofInt]

theorem ofInt_add : t.ofInt (x + y) = t.ofInt x + t.ofInt y := BitVec.ofInt_add x y

theorem ofInt_mul : t.ofInt (x * y) = t.ofInt x * t.ofInt y := BitVec.ofInt_mul x y

theorem ofInt_neg : t.ofInt (-x) = -t.ofInt x := BitVec.ofInt_neg

theorem ofInt_sub : t.ofInt (x - y) = t.ofInt x - t.ofInt y := by
  rw [Int.sub_eq_add_neg, ofInt_add, ofInt_neg, BitVec.sub_eq_add_neg]

end ArrayDispatch.IntType
