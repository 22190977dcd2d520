import ArrayDispatch.Proofs.Scalar.Promotion
import ArrayDispatch.Proofs.Scalar.Word

/-!
Shifts of integers. A count from zero up to `2 ^ 32` counts modulo the width of the type: to the
left a shift multiplies by a power of two, to the right it divides by one and rounds down. All other
counts are refused, the large ones along with the negative ones.
-/

namespace ArrayDispatch

namespace IntType

variable (t : IntType) (x : t.Word) (n : Nat)

theorem toInt_modEq_toNat : t.toInt x ≡ x.toNat [ZMOD 2 ^ t.width] := by
  have h := t.toInt_ofInt_modEq x.toNat
  rwa [ofInt, BitVec.ofInt_natCast, BitVec.ofNat_toNat, BitVec.setWidth_eq] at h

theorem reduces_shiftLeft : t.Reduces (t.toInt x * 2 ^ n) (t.toInt (x <<< n)) where
  holds := t.holds_toInt _
  modEq := by
    have hcast : ((2 ^ t.width : Nat) : Int) = 2 ^ t.width := by simp
    have hnat : ((x <<< n).toNat : Int) ≡ x.toNat * 2 ^ n [ZMOD 2 ^ t.width] := by
      rw [BitVec.toNat_shiftLeft, Nat.shiftLeft_eq, ← hcast]
      exact_mod_cast Nat.mod_modEq (x.toNat * 2 ^ n) (2 ^ t.width)
    exact ((t.toInt_modEq_toNat _).trans hnat).trans
      ((t.toInt_modEq_toNat x).symm.mul_right _)

theorem toInt_shiftRight :
    t.toInt (if t.signed then x.sshiftRight n else x >>> n) = (t.toInt x).fdiv (2 ^ n) := by
  have hpow : (0 : Int) ≤ 2 ^ n := Int.le_of_lt (Int.pow_pos (by decide))
  rw [Int.fdiv_eq_ediv_of_nonneg _ hpow]
  cases hs : t.signed
  · simp [toInt, hs, Nat.shiftRight_eq_div_pow]
  · simp [toInt, hs, BitVec.toInt_sshiftRight, Int.shiftRight_eq_div_pow]

/-- What becomes of the shifts of `x` by `c` places, to the left and to the right. -/
inductive Shifts (t : IntType) (x c : Int) : Attempt Scalar → Attempt Scalar → Prop
  | refused (hc : c < 0 ∨ 2 ^ 32 ≤ c) :
      Shifts t x c (.error (.kernel .shiftCount)) (.error (.kernel .shiftCount))
  | shifted {l r : t.Word} (hc : 0 ≤ c ∧ c < 2 ^ 32)
      (left : t.Reduces (x * 2 ^ (c % t.width).toNat) (t.toInt l))
      (right : t.toInt r = x.fdiv (2 ^ (c % t.width).toNat)) :
      Shifts t x c (.ok ⟨.integer t, l⟩) (.ok ⟨.integer t, r⟩)

theorem shifts (x y : t.Word) :
    t.Shifts (t.toInt x) (t.toInt y) ((t.shiftLeft x y).map (⟨.integer t, ·⟩))
      ((t.shiftRight x y).map (⟨.integer t, ·⟩)) := by
  unfold shiftLeft shiftRight shiftCount
  by_cases hc : 0 ≤ t.toInt y ∧ t.toInt y < 0x100000000
  · have hmod : (t.toInt y).toNat % t.width = (t.toInt y % t.width).toNat :=
      (Int.toNat_emod hc.1 (Int.natCast_nonneg _)).symm
    simp only [if_pos hc, hmod]
    exact .shifted hc (t.reduces_shiftLeft x _) (t.toInt_shiftRight x _)
  · simp only [if_neg hc]
    exact .refused (by omega)

end IntType

namespace Scalar

/-- Shifts of integers, or of an integer and a boolean, which are first promoted to the highest type
among them. -/
theorem eval_shift {a n : Scalar} (ha : a.kind.isFloat = false) (hn : n.kind.isFloat = false)
    (hbool : a.kind ≠ .bool ∨ n.kind ≠ .bool) (slot : Slot) :
    ∃ t, (Kind.integer t).HighestOf [a, n] ∧
      t.Shifts (t.toInt (a.toElem (.integer t))) (t.toInt (n.toElem (.integer t)))
        (eval .lshift slot [a, n]) (eval .rshift slot [a, n]) := by
  obtain ⟨t, ht, heval⟩ := binary_integers ha hn hbool
  refine ⟨t, ht, ?_⟩
  change t.Shifts _ _ (binary .lshift a n) (binary .rshift a n)
  rw [heval _ (by decide), heval _ (by decide)]
  exact t.shifts _ _

/-- A negative number of 64 bits by 65 places, which count as one. -/
theorem eval_shift_wide :
    let a : Scalar := ⟨.integer .int64, -7⟩
    let n : Scalar := ⟨.integer .uint32, 65⟩
    a.kind.isFloat = false ∧ n.kind.isFloat = false ∧ (a.kind ≠ .bool ∨ n.kind ≠ .bool) ∧
      ∃ l r, eval .lshift .method [a, n] = .ok ⟨.integer .int64, l⟩ ∧
        eval .rshift .method [a, n] = .ok ⟨.integer .int64, r⟩ ∧
        IntType.int64.toInt l = -14 ∧ IntType.int64.toInt r = -4 := by
  intro a n
  have hbool : a.kind ≠ .bool ∨ n.kind ≠ .bool := .inl (by decide)
  obtain ⟨t, ht, h⟩ := eval_shift (a := a) (n := n) rfl rfl hbool .method
  cases (Kind.highestOf_pair a n).unique ht
  have hx : IntType.int64.toInt (a.toElem (.integer .int64)) = -7 := by decide
  have hc : IntType.int64.toInt (n.toElem (.integer .int64)) = 65 := by decide
  rw [hx, hc] at h
  generalize hl : eval .lshift .method [a, n] = left at h
  generalize hr : eval .rshift .method [a, n] = right at h
  cases h with
  | refused hrefused => omega
  | shifted _ left right =>
    exact ⟨rfl, rfl, hbool, _, _, rfl, rfl, left.unique ⟨by decide, by decide⟩, right⟩

/-- Not only negative counts are refused: one of `2 ^ 32` is, where it would count as none. -/
theorem eval_shift_refuses_large :
    let a : Scalar := ⟨.integer .int64, 1⟩
    let n : Scalar := ⟨.integer .int64, 0x100000000⟩
    IntType.int64.toInt (n.toElem (.integer .int64)) = 2 ^ 32 ∧
      eval .lshift .method [a, n] = .error (.kernel .shiftCount) ∧
      eval .rshift .method [a, n] = .error (.kernel .shiftCount) :=
  ⟨by decide, rfl, rfl⟩

end Scalar

end ArrayDispatch
