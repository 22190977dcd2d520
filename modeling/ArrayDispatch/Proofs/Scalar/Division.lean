import ArrayDispatch.Proofs.Scalar.Promotion
import ArrayDispatch.Proofs.Scalar.Word

/-!
Floor division and modulo of integers. Quotient and remainder toward zero are corrected where a
remainder is left that has not the sign of the divisor; no step of it leaves the range of the type,
and both results satisfy the division law.
-/

namespace ArrayDispatch

/-! ## Division of integers -/

/-- A remainder toward zero that is none of the quotient rounded down. -/
def Misplaced (r y : Int) : Prop := r ≠ 0 ∧ ¬(r < 0 ↔ y < 0)

instance (r y : Int) : Decidable (Misplaced r y) := inferInstanceAs (Decidable (_ ∧ _))

theorem natAbs_tmod_lt (x : Int) {y : Int} (hy : y ≠ 0) : (x.tmod y).natAbs < y.natAbs := by
  rw [Int.natAbs_tmod]
  exact Nat.mod_lt _ (Int.natAbs_pos.mpr hy)

/-- Correcting the division toward zero gives the division rounded down. -/
theorem fdiv_fmod_eq (x : Int) {y : Int} (hy : y ≠ 0) :
    x.fdiv y = (if Misplaced (x.tmod y) y then x.tdiv y - 1 else x.tdiv y) ∧
      x.fmod y = if Misplaced (x.tmod y) y then x.tmod y + y else x.tmod y := by
  have hlt := natAbs_tmod_lt x hy
  have hlaw := Int.tmod_add_mul_tdiv x y
  have hstep := Int.mul_sub y (x.tdiv y) 1
  by_cases h : Misplaced (x.tmod y) y
  all_goals
    simp only [h, if_true, if_false]
    unfold Misplaced at h
    rcases Int.lt_or_gt_of_ne hy with hneg | hpos
    · rw [Int.fdiv_fmod_unique' hneg]
      omega
    · rw [Int.fdiv_fmod_unique hpos]
      omega

theorem fmod_between (x : Int) {y : Int} (hy : y ≠ 0) :
    0 ≤ x.fmod y ∧ x.fmod y < y ∨ y < x.fmod y ∧ x.fmod y ≤ 0 := by
  rcases Int.lt_or_gt_of_ne hy with hneg | hpos
  · exact .inr ((Int.fdiv_fmod_unique' hneg).mp ⟨rfl, rfl⟩).2
  · exact .inl ((Int.fdiv_fmod_unique hpos).mp ⟨rfl, rfl⟩).2

namespace IntType

variable {t : IntType} {x y z : Int}

/-! ## Ranges of quotients and remainders -/

theorem holds_of_natAbs_lt (hy : t.Holds y) (h : z.natAbs < y.natAbs)
    (hsign : t.low = 0 → 0 ≤ z) : t.Holds z := by
  have hrange := t.range_cases
  unfold Holds at *
  omega

/-- A quotient is no larger than the dividend, which is in range; of the signed types only the
quotient of the least integer by `-1` falls out of it. -/
theorem holds_quotient {q r : Int} (hx : t.Holds x) (hlaw : r + y * q = x)
    (hr : r.natAbs < y.natAbs) (hq : q.natAbs ≤ x.natAbs) (hsign : t.low = 0 → 0 ≤ q)
    (hne : ¬(x = t.low ∧ y = -1)) : t.Holds q := by
  unfold Holds at *
  rcases t.range_cases with hlow | ⟨hlow, hhigh⟩ | ⟨hlow, hhigh⟩
  · omega
  · have hmost : q ≠ 2 ^ 31 := by
      rintro rfl
      omega
    omega
  · have hmost : q ≠ 2 ^ 63 := by
      rintro rfl
      omega
    omega

section Ranges

variable (hx : t.Holds x) (hy : t.Holds y) (hne : y ≠ 0)

include hx hy

theorem nonneg_of_low (hlow : t.low = 0) : 0 ≤ x ∧ 0 ≤ y := by
  unfold Holds at *
  omega

include hne

theorem holds_tmod : t.Holds (x.tmod y) :=
  holds_of_natAbs_lt hy (natAbs_tmod_lt x hne) fun hlow =>
    Int.tmod_nonneg y (nonneg_of_low hx hy hlow).1

theorem holds_fmod : t.Holds (x.fmod y) := by
  have hbetween := fmod_between x hne
  have hzero := t.range_cases
  unfold Holds at *
  omega

theorem holds_tdiv (hleast : ¬(x = t.low ∧ y = -1)) : t.Holds (x.tdiv y) :=
  holds_quotient hx (Int.tmod_add_mul_tdiv x y) (natAbs_tmod_lt x hne)
    (Int.natAbs_tdiv_le_natAbs x y)
    (fun hlow => Int.tdiv_nonneg (nonneg_of_low hx hy hlow).1 (nonneg_of_low hx hy hlow).2) hleast

theorem holds_fdiv (hleast : ¬(x = t.low ∧ y = -1)) : t.Holds (x.fdiv y) := by
  have hbetween := fmod_between x hne
  exact holds_quotient hx (Int.fmod_add_mul_fdiv x y) (by omega) (Int.natAbs_fdiv_le_natAbs x y)
    (fun hlow => Int.fdiv_nonneg (nonneg_of_low hx hy hlow).1 (nonneg_of_low hx hy hlow).2) hleast

end Ranges

/-! ## Division of words -/

section Words

variable (t) (x y : t.Word)

theorem toInt_eq_zero_iff {y : t.Word} : t.toInt y = 0 ↔ y = 0 := by
  constructor
  · intro h
    rw [← t.ofInt_toInt y, h, ofInt_zero]
  · rintro rfl
    unfold toInt
    split <;> simp

variable {t}

theorem sdiv_eq (hs : t.signed = true) :
    x.sdiv y = t.ofInt ((t.toInt x).tdiv (t.toInt y)) := by
  apply BitVec.eq_of_toInt_eq
  simp [toInt, ofInt, hs, BitVec.toInt_sdiv]

theorem srem_eq (hs : t.signed = true) :
    x.srem y = t.ofInt ((t.toInt x).tmod (t.toInt y)) := by
  simp only [toInt, ofInt, hs, if_true, ← BitVec.toInt_srem, BitVec.ofInt_toInt]

theorem udiv_eq (hs : t.signed = false) :
    x.udiv y = t.ofInt ((t.toInt x).tdiv (t.toInt y)) := by
  rw [← t.ofInt_toInt (x.udiv y)]
  congr 1
  simp [toInt, hs]

theorem umod_eq (hs : t.signed = false) :
    x.umod y = t.ofInt ((t.toInt x).tmod (t.toInt y)) := by
  rw [← t.ofInt_toInt (x.umod y)]
  congr 1
  simp [toInt, hs, Int.tmod_eq_emod_of_nonneg]

theorem misplaced_iff (hs : t.signed = true) :
    (x.srem y ≠ 0 ∧ (x.srem y).msb ≠ y.msb) ↔
      Misplaced ((t.toInt x).tmod (t.toInt y)) (t.toInt y) := by
  have hr : t.toInt (x.srem y) = (t.toInt x).tmod (t.toInt y) := by
    simp [toInt, hs, BitVec.toInt_srem]
  have hmsb : ∀ w : t.Word, w.msb = decide (t.toInt w < 0) := by
    simp [toInt, hs, BitVec.msb_eq_toInt]
  rw [← hr, hmsb, hmsb, ne_eq, ne_eq, decide_eq_decide, ← t.toInt_eq_zero_iff]
  rfl

theorem not_misplaced (hs : t.signed = false) :
    ¬Misplaced ((t.toInt x).tmod (t.toInt y)) (t.toInt y) := by
  have hx : 0 ≤ (t.toInt x).tmod (t.toInt y) := Int.tmod_nonneg _ (by simp [toInt, hs])
  have hy : 0 ≤ t.toInt y := by simp [toInt, hs]
  unfold Misplaced
  omega

theorem floorDiv_eq {y : t.Word} (hy : t.toInt y ≠ 0) :
    t.floorDiv x y = .ok (t.ofInt ((t.toInt x).fdiv (t.toInt y))) := by
  have hword : y ≠ 0 := fun h => hy ((t.toInt_eq_zero_iff).mpr h)
  rw [(fdiv_fmod_eq _ hy).1]
  unfold floorDiv
  rw [if_neg hword]
  split
  · next hs =>
    simp only [misplaced_iff x y hs]
    rw [sdiv_eq x y hs]
    split
    · rw [ofInt_sub, ofInt_one]
      rfl
    · rfl
  · next hs =>
    have hs : t.signed = false := by simpa using hs
    rw [if_neg (not_misplaced x y hs), udiv_eq x y hs]
    rfl

theorem mod_eq {y : t.Word} (hy : t.toInt y ≠ 0) :
    t.mod x y = .ok (t.ofInt ((t.toInt x).fmod (t.toInt y))) := by
  have hword : y ≠ 0 := fun h => hy ((t.toInt_eq_zero_iff).mpr h)
  rw [(fdiv_fmod_eq _ hy).2]
  unfold mod
  rw [if_neg hword]
  split
  · next hs =>
    simp only [misplaced_iff x y hs]
    rw [srem_eq x y hs]
    split
    · rw [ofInt_add, ofInt_toInt]
      rfl
    · rfl
  · next hs =>
    have hs : t.signed = false := by simpa using hs
    rw [if_neg (not_misplaced x y hs), umod_eq x y hs]
    rfl

/-! ## Division by steps that must stay in range -/

variable (t)

/-- The word of an integer, `none` if the type does not hold it. -/
def word? (z : Int) : Option t.Word := if t.Holds z then some (t.ofInt z) else none

/-- The quotient toward zero, `none` if it does not exist or is out of range. -/
def quotient? : Option t.Word :=
  if t.toInt y = 0 then none else t.word? ((t.toInt x).tdiv (t.toInt y))

/-- The remainder toward zero, which the machine refuses along with the quotient. -/
def remainder? : Option t.Word :=
  (t.quotient? x y).bind fun _ => t.word? ((t.toInt x).tmod (t.toInt y))

/-- Floor division in which every step has to stay in range. Where there is no quotient, the
dividend is negated, which wraps around. -/
def floorDiv? : Option t.Word :=
  match t.quotient? x y with
  | none => some (t.neg x)
  | some q => (t.remainder? x y).bind fun r =>
    if Misplaced (t.toInt r) (t.toInt y) then t.word? (t.toInt q - 1) else some q

/-- Modulo in which every step has to stay in range. -/
def mod? : Option t.Word :=
  match t.quotient? x y with
  | none => some 0
  | some _ => (t.remainder? x y).bind fun r =>
    if Misplaced (t.toInt r) (t.toInt y) then t.word? (t.toInt r + t.toInt y) else some r

variable {t}

theorem word?_of_holds {z : Int} (h : t.Holds z) : t.word? z = some (t.ofInt z) := if_pos h

theorem quotient?_least {x y : t.Word} (hx : t.toInt x = t.low) (hy : t.toInt y = -1) :
    t.quotient? x y = none := by
  have hrange := t.range_cases
  have hholds := t.holds_toInt y
  have hne : ¬t.Holds ((t.toInt x).tdiv (t.toInt y)) := by
    rw [hx, hy, Int.tdiv_neg, Int.tdiv_one]
    unfold Holds at *
    omega
  unfold quotient? word?
  rw [if_neg (by omega), if_neg hne]

section InRange

variable {x y : t.Word} (hy : t.toInt y ≠ 0) (hleast : ¬(t.toInt x = t.low ∧ t.toInt y = -1))

include hy hleast

theorem quotient?_eq : t.quotient? x y = some (t.ofInt ((t.toInt x).tdiv (t.toInt y))) :=
  (if_neg hy).trans
    (word?_of_holds (holds_tdiv (t.holds_toInt x) (t.holds_toInt y) hy hleast))

theorem remainder?_eq : t.remainder? x y = some (t.ofInt ((t.toInt x).tmod (t.toInt y))) := by
  unfold remainder?
  rw [quotient?_eq hy hleast]
  exact word?_of_holds (holds_tmod (t.holds_toInt x) (t.holds_toInt y) hy)

end InRange

/-- No step of a floor division leaves the range. -/
theorem floorDiv?_eq {y : t.Word} (hy : t.toInt y ≠ 0) :
    t.floorDiv? x y = some (t.ofInt ((t.toInt x).fdiv (t.toInt y))) := by
  unfold floorDiv?
  by_cases hleast : t.toInt x = t.low ∧ t.toInt y = -1
  · obtain ⟨hx, hy⟩ := hleast
    have hfdiv : (t.toInt x).fdiv (-1) = -t.toInt x := by simp [Int.fdiv_neg]
    rw [quotient?_least hx hy, hy, hfdiv, ofInt_neg, ofInt_toInt]
    rfl
  · have hx := t.holds_toInt x
    have hy' := t.holds_toInt y
    have hfdiv := holds_fdiv hx hy' hy hleast
    simp only [quotient?_eq hy hleast, remainder?_eq hy hleast, Option.bind_some,
      toInt_ofInt (holds_tdiv hx hy' hy hleast), toInt_ofInt (holds_tmod hx hy' hy)]
    rw [(fdiv_fmod_eq _ hy).1] at hfdiv ⊢
    split
    · next h =>
      rw [if_pos h] at hfdiv
      exact word?_of_holds hfdiv
    · rfl

theorem mod?_eq {y : t.Word} (hy : t.toInt y ≠ 0) :
    t.mod? x y = some (t.ofInt ((t.toInt x).fmod (t.toInt y))) := by
  unfold mod?
  by_cases hleast : t.toInt x = t.low ∧ t.toInt y = -1
  · obtain ⟨hx, hy⟩ := hleast
    have hfmod : (t.toInt x).fmod (-1) = 0 := Int.fmod_eq_zero_of_dvd ⟨-t.toInt x, by omega⟩
    rw [quotient?_least hx hy, hy, hfmod, ofInt_zero]
  · have hx := t.holds_toInt x
    have hy' := t.holds_toInt y
    have hfmod := holds_fmod hx hy' hy
    simp only [quotient?_eq hy hleast, remainder?_eq hy hleast, Option.bind_some,
      toInt_ofInt (holds_tmod hx hy' hy)]
    rw [(fdiv_fmod_eq _ hy).2] at hfmod ⊢
    split
    · next h =>
      rw [if_pos h] at hfmod
      exact word?_of_holds hfmod
    · rfl

end Words

/-- What floor division and modulo make of two words. Without a quotient both fail; otherwise the
remainder lies between zero and the divisor, the quotient is rounded down unless it is the one that
wraps around, and no step on the way leaves the range. -/
inductive Divides (t : IntType) (x y : t.Word) : Attempt Scalar → Attempt Scalar → Prop
  | undefined (hy : t.toInt y = 0) :
      Divides t x y (.error (.kernel .divisionByZero)) (.error (.kernel .divisionByZero))
  | divided {q r : t.Word} (hy : t.toInt y ≠ 0)
      (remainder : 0 ≤ t.toInt r ∧ t.toInt r < t.toInt y ∨
        t.toInt y < t.toInt r ∧ t.toInt r ≤ 0)
      (quotient : t.toInt q = if t.toInt x = t.low ∧ t.toInt y = -1 then t.low
        else (t.toInt x).fdiv (t.toInt y))
      (law : t.toInt x ≡ t.toInt y * t.toInt q + t.toInt r [ZMOD 2 ^ t.width])
      (steps : t.floorDiv? x y = some q ∧ t.mod? x y = some r) :
      Divides t x y (.ok ⟨.integer t, q⟩) (.ok ⟨.integer t, r⟩)

theorem toInt_fdiv (x : t.Word) {y : t.Word} (hy : t.toInt y ≠ 0) :
    t.toInt (t.ofInt ((t.toInt x).fdiv (t.toInt y))) =
      if t.toInt x = t.low ∧ t.toInt y = -1 then t.low else (t.toInt x).fdiv (t.toInt y) := by
  split
  · next h =>
    have hfdiv : t.low.fdiv (-1) = -t.low := by simp [Int.fdiv_neg]
    have hwraps : t.ofInt (-t.low) = t.ofInt t.low := by
      cases t <;> rfl
    have hlow : t.Holds t.low := h.1 ▸ t.holds_toInt x
    rw [h.1, h.2, hfdiv, hwraps, toInt_ofInt hlow]
  · next h =>
    exact toInt_ofInt (holds_fdiv (t.holds_toInt x) (t.holds_toInt y) hy h)

theorem divides (t : IntType) (x y : t.Word) :
    t.Divides x y ((t.floorDiv x y).map (⟨.integer t, ·⟩)) ((t.mod x y).map (⟨.integer t, ·⟩)) := by
  by_cases hy : t.toInt y = 0
  · have hword : y = 0 := t.toInt_eq_zero_iff.mp hy
    unfold floorDiv mod
    rw [if_pos hword, if_pos hword]
    exact .undefined hy
  · have hr : t.toInt (t.ofInt ((t.toInt x).fmod (t.toInt y))) = (t.toInt x).fmod (t.toInt y) :=
      toInt_ofInt (holds_fmod (t.holds_toInt x) (t.holds_toInt y) hy)
    rw [floorDiv_eq x hy, mod_eq x hy]
    refine .divided hy ?_ (toInt_fdiv x hy) ?_ ⟨floorDiv?_eq x hy, mod?_eq x hy⟩
    · rw [hr]
      exact fmod_between _ hy
    · have hq := t.toInt_ofInt_modEq ((t.toInt x).fdiv (t.toInt y))
      rw [hr]
      calc t.toInt x
          = t.toInt y * (t.toInt x).fdiv (t.toInt y) + (t.toInt x).fmod (t.toInt y) :=
            (Int.mul_fdiv_add_fmod _ _).symm
        _ ≡ _ [ZMOD 2 ^ t.width] := ((hq.symm.mul_left _).add_right _)

end IntType

namespace Scalar

/-- Floor division and modulo of integers, or of an integer and a boolean, which are first promoted
to the highest type among them. -/
theorem eval_division {a b : Scalar} (ha : a.kind.isFloat = false) (hb : b.kind.isFloat = false)
    (hbool : a.kind ≠ .bool ∨ b.kind ≠ .bool) (slot : Slot) :
    ∃ t, (Kind.integer t).HighestOf [a, b] ∧
      t.Divides (a.toElem (.integer t)) (b.toElem (.integer t)) (eval .floordiv slot [a, b])
        (eval .mod slot [a, b]) := by
  obtain ⟨t, ht, heval⟩ := binary_integers ha hb hbool
  refine ⟨t, ht, ?_⟩
  change t.Divides _ _ (binary .floordiv a b) (binary .mod a b)
  rw [heval _ (by decide), heval _ (by decide)]
  exact t.divides _ _

/-- The least number of 64 bits by a negative one of 32 bits: the quotient wraps around, the
remainder is zero. -/
theorem eval_division_least :
    let a : Scalar := ⟨.integer .int64, 0x8000000000000000⟩
    let b : Scalar := ⟨.integer .int32, -1⟩
    a.kind.isFloat = false ∧ b.kind.isFloat = false ∧ (a.kind ≠ .bool ∨ b.kind ≠ .bool) ∧
      ∃ q r, eval .floordiv .method [a, b] = .ok ⟨.integer .int64, q⟩ ∧
        eval .mod .method [a, b] = .ok ⟨.integer .int64, r⟩ ∧
        IntType.int64.toInt q = -2 ^ 63 ∧ IntType.int64.toInt r = 0 := by
  intro a b
  have hbool : a.kind ≠ .bool ∨ b.kind ≠ .bool := .inl (by decide)
  obtain ⟨t, ht, h⟩ := eval_division (a := a) (b := b) rfl rfl hbool .method
  cases (Kind.highestOf_pair a b).unique ht
  have hx : IntType.int64.toInt (a.toElem (.integer .int64)) = -2 ^ 63 := by decide
  have hy : IntType.int64.toInt (b.toElem (.integer .int64)) = -1 := by decide
  generalize hq : eval .floordiv .method [a, b] = floor at h
  generalize hr : eval .mod .method [a, b] = rest at h
  cases h with
  | undefined hzero =>
    rw [hy] at hzero
    cases hzero
  | divided _ remainder quotient =>
    rw [hx, hy, if_pos ⟨rfl, rfl⟩] at quotient
    rw [hy] at remainder
    exact ⟨rfl, rfl, hbool, _, _, rfl, rfl, quotient, by omega⟩

end Scalar

end ArrayDispatch
