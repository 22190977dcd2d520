import ArrayDispatch.Shape

/-!
The number of elements of a shape. It is multiplied up axis by axis, which ends the run where a
product is no size.
-/

namespace ArrayDispatch.Shape

variable {shape : List Nat}

@[simp] theorem size_nil : size [] = 1 := rfl

@[simp] theorem size_cons (n : Nat) (shape : List Nat) : size (n :: shape) = n * size shape :=
  List.prod_cons

/-- The number of elements can be multiplied up: so far as two or more extents are multiplied, their
product is a size. -/
def Fits (shape : List Nat) : Prop :=
  ∀ k < shape.length, k ≠ 0 → IsSize (size (shape.take (k + 1)))

instance (shape : List Nat) : Decidable (Fits shape) :=
  inferInstanceAs (Decidable (∀ k < shape.length, k ≠ 0 → IsSize (size (shape.take (k + 1)))))

theorem fits_nil : Fits [] := fun _ hk => absurd hk (Nat.not_lt_zero _)

theorem fits_singleton (n : Nat) : Fits [n] := fun _ hk hne =>
  absurd (Nat.lt_one_iff.mp hk) hne

theorem size_singleton (n : Nat) : size [n] = n := Nat.mul_one n

/-- Behind the first extent, every further one is multiplied to the product so far. -/
theorem fits_cons_iff {n : Nat} :
    Fits (n :: shape) ↔ ∀ k < shape.length, IsSize (n * size (shape.take (k + 1))) := by
  constructor
  · intro h k hk
    exact h (k + 1) (Nat.succ_lt_succ hk) k.succ_ne_zero
  · intro h k hk hne
    obtain ⟨k, rfl⟩ := Nat.exists_eq_succ_of_ne_zero hne
    exact h k (Nat.lt_of_succ_lt_succ hk)

theorem foldlM_mulSizes_of_isSize {n : Nat}
    (h : ∀ k < shape.length, IsSize (n * size (shape.take (k + 1)))) :
    shape.foldlM mulSizes n = .ok (n * size shape) := by
  induction shape generalizing n with
  | nil => exact congrArg Except.ok (Nat.mul_one n).symm
  | cons m shape ih =>
    have hm : IsSize (n * m) := by simpa using h 0 (by simp)
    rw [List.foldlM_cons, mulSizes_of_isSize hm, size_cons, ← Nat.mul_assoc]
    refine ih fun k hk => ?_
    rw [Nat.mul_assoc]
    exact h (k + 1) (Nat.succ_lt_succ hk)

theorem foldlM_mulSizes_of_not_isSize {n : Nat}
    (h : ¬∀ k < shape.length, IsSize (n * size (shape.take (k + 1)))) :
    shape.foldlM mulSizes n = .error .overflow := by
  induction shape generalizing n with
  | nil => exact absurd (fun k hk => absurd hk k.not_lt_zero) h
  | cons m shape ih =>
    rw [List.foldlM_cons]
    by_cases hm : IsSize (n * m)
    · rw [mulSizes_of_isSize hm]
      refine ih fun hrest => h fun k hk => ?_
      cases k with
      | zero => simpa using hm
      | succ k =>
        rw [List.take_succ_cons, size_cons, ← Nat.mul_assoc]
        exact hrest k (Nat.lt_of_succ_lt_succ hk)
    · rw [mulSizes_of_not_isSize hm]
      rfl

theorem count_of_fits (h : Fits shape) : count shape = .ok (size shape) := by
  cases shape with
  | nil => rfl
  | cons n shape => exact foldlM_mulSizes_of_isSize (fits_cons_iff.mp h)

theorem count_of_not_fits (h : ¬Fits shape) : count shape = .error .overflow := by
  cases shape with
  | nil => exact absurd fits_nil h
  | cons n shape => exact foldlM_mulSizes_of_not_isSize (mt fits_cons_iff.mpr h)

theorem count_eq_ok_iff {n : Nat} : count shape = .ok n ↔ Fits shape ∧ n = size shape := by
  by_cases h : Fits shape
  · simp [count_of_fits h, h, eq_comm]
  · simp [count_of_not_fits h, h]

end ArrayDispatch.Shape
