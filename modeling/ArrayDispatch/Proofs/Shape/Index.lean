import ArrayDispatch.Proofs.Shape.Count
import Mathlib.Data.List.Forall2
import Mathlib.Tactic.Ring

/-!
Multi-indices and their row-major positions. The flat indices that expand an array of one shape to
another lead every position to the element whose coordinates are 0 on the axes of extent 1.
-/

namespace ArrayDispatch.Shape

/-- A multi-index has one coordinate below the extent of every axis. -/
def Within (index shape : List Nat) : Prop := List.Forall₂ (· < ·) index shape

/-- Row-major position of a multi-index. -/
def offset : (shape index : List Nat) → Nat
  | _ :: shape, x :: index => x * size shape + offset shape index
  | _, _ => 0

/-- The coordinates that an operand of some shape is read at: 0 on its axes of extent 1, and none
at all if it has no axes. -/
def pin : (shape index : List Nat) → List Nat
  | n :: shape, x :: index => (if n = 1 then 0 else x) :: pin shape index
  | _, _ => []

/-- The multi-index at a row-major position. -/
def coordinates : (shape : List Nat) → Nat → List Nat
  | [], _ => []
  | _ :: shape, k => k / size shape :: coordinates shape (k % size shape)

/-- An array of shape `src` can be repeated to shape `dst` along its axes of extent 1. -/
def Stretches (src dst : List Nat) : Prop := List.Forall₂ (fun m n => m = 1 ∨ m = n) src dst

@[simp] theorem offset_cons (n x : Nat) (shape index : List Nat) :
    offset (n :: shape) (x :: index) = x * size shape + offset shape index := rfl

/-! ## Positions -/

section Positions

variable {shape src dst index : List Nat}

theorem offset_lt_size (h : Within index shape) : offset shape index < size shape := by
  induction h with
  | nil => exact Nat.one_pos
  | @cons x n index shape hx _ ih =>
    rw [offset_cons, size_cons]
    calc x * size shape + offset shape index < x * size shape + size shape := by omega
      _ = (x + 1) * size shape := by ring
      _ ≤ n * size shape := Nat.mul_le_mul_right _ hx

/-- The axes behind the first split a position into rows of `size shape` elements. -/
theorem size_pos_of_lt {n k : Nat} (h : k < size (n :: shape)) :
    0 < size shape ∧ k / size shape < n := by
  rw [size_cons] at h
  exact ⟨Nat.pos_of_mul_pos_left (Nat.zero_lt_of_lt h),
    Nat.div_lt_of_lt_mul (by rwa [Nat.mul_comm])⟩

theorem within_coordinates {k : Nat} (h : k < size shape) :
    Within (coordinates shape k) shape := by
  induction shape generalizing k with
  | nil => exact .nil
  | cons n shape ih =>
    obtain ⟨hpos, hx⟩ := size_pos_of_lt h
    exact .cons hx (ih (Nat.mod_lt k hpos))

theorem offset_coordinates {k : Nat} (h : k < size shape) :
    offset shape (coordinates shape k) = k := by
  induction shape generalizing k with
  | nil =>
    rw [size_nil] at h
    simp only [offset]
    omega
  | cons n shape ih =>
    obtain ⟨hpos, _⟩ := size_pos_of_lt h
    rw [coordinates, offset_cons, ih (Nat.mod_lt k hpos), Nat.mul_comm]
    exact Nat.div_add_mod k _

theorem exists_offset_eq {k : Nat} (h : k < size shape) :
    ∃ index, Within index shape ∧ offset shape index = k :=
  ⟨coordinates shape k, within_coordinates h, offset_coordinates h⟩

theorem pin_self (h : Within index shape) : pin shape index = index := by
  induction h with
  | nil => rfl
  | @cons x n index shape hx _ ih =>
    have hx' : (if n = 1 then 0 else x) = x := by
      split <;> omega
    rw [pin, ih, hx']

theorem within_pin (hs : Stretches src dst) (hi : Within index dst) :
    Within (pin src index) src := by
  induction hs generalizing index with
  | nil => exact .nil
  | cons hmn _ ih =>
    cases hi with
    | cons hx hi =>
      refine .cons ?_ (ih hi)
      split <;> omega

end Positions

/-! ## Gathering -/

section Gather

variable {src dst index : List Nat}

theorem length_pinAxes (positions : List Nat) (block : Nat) (axes : List (Nat × Nat)) :
    (pinAxes positions block axes).length = positions.length := by
  induction axes generalizing positions block with
  | nil => rfl
  | cons axis axes ih =>
    rw [pinAxes, ih]
    split <;> simp

theorem length_indices (src dst : List Nat) (block : Nat) :
    (indices src dst block).length = block := by
  unfold indices
  split
  · rename_i h
    rw [h]
    rfl
  · rw [length_pinAxes, List.length_range]

theorem pos_of_size_pos {front back : List Nat} {n : Nat} (h : 0 < size (front ++ n :: back)) :
    0 < n ∧ 0 < size back := by
  induction front with
  | nil =>
    rw [List.nil_append, size_cons] at h
    exact ⟨Nat.pos_of_mul_pos_right h, Nat.pos_of_mul_pos_left h⟩
  | cons m front ih =>
    rw [List.cons_append, size_cons] at h
    exact ih (Nat.pos_of_mul_pos_left h)

/-- Once some axes are passed, the blocks are as large as the axes that remain. -/
theorem pinAxes_append (src positions : List Nat) {front back : List Nat}
    (h : 0 < size (front ++ back)) :
    pinAxes positions (size (front ++ back)) (src.zip (front ++ back)) =
      pinAxes (pinAxes positions (size (front ++ back)) (src.zip front)) (size back)
        ((src.drop front.length).zip back) := by
  induction front generalizing src positions with
  | nil => simp [pinAxes]
  | cons n front ih =>
    cases src with
    | nil => simp [pinAxes]
    | cons m src =>
      rw [List.cons_append, size_cons] at h
      have hnext : n * size (front ++ back) / n = size (front ++ back) :=
        Nat.mul_div_cancel_left _ (Nat.pos_of_mul_pos_right h)
      rw [List.cons_append, List.zip_cons_cons, pinAxes, size_cons, List.zip_cons_cons, pinAxes]
      simp only [hnext]
      exact ih src _ (Nat.pos_of_mul_pos_left h)

/-- An axis of extent 1 that is expanded loses its coordinate. -/
theorem pinned_position (acc : Nat) {n x next rest : Nat} (hx : x < n) (hr : rest < next) :
    (acc * (n * next) + (x * next + rest)) % next +
      (acc * (n * next) + (x * next + rest)) / (n * next) * next = acc * next + rest := by
  have hlt : x * next + rest < n * next := by
    calc x * next + rest < x * next + next := by omega
      _ = (x + 1) * next := by ring
      _ ≤ n * next := Nat.mul_le_mul_right _ hx
  have hdiv : (acc * (n * next) + (x * next + rest)) / (n * next) = acc := by
    rw [Nat.mul_comm acc, Nat.mul_add_div (by omega), Nat.div_eq_of_lt hlt, Nat.add_zero]
  have hmod : (acc * (n * next) + (x * next + rest)) % next = rest := by
    have : acc * (n * next) + (x * next + rest) = rest + next * (acc * n + x) := by ring
    rw [this, Nat.add_mul_mod_self_left, Nat.mod_eq_of_lt hr]
  rw [hdiv, hmod]
  omega

/-- Of the axes already passed a position keeps their position `acc` in the source. -/
theorem getElem?_pinAxes (acc : Nat) (hs : Stretches src dst) (hi : Within index dst)
    {positions : List Nat} {k : Nat}
    (hk : positions[k]? = some (acc * size dst + offset dst index)) :
    (pinAxes positions (size dst) (src.zip dst))[k]? =
      some (acc * size src + offset src (pin src index)) := by
  induction hs generalizing acc index positions with
  | nil =>
    cases hi
    exact hk
  | @cons m n src dst hmn _ ih =>
    cases hi with
    | @cons x _ index _ hx hi =>
      have hnext : n * size dst / n = size dst := Nat.mul_div_cancel_left _ (by omega)
      rw [size_cons, offset_cons] at hk
      rw [List.zip_cons_cons, pinAxes, size_cons]
      simp only [hnext]
      by_cases hpin : m = 1 ∧ n ≠ 1
      · have hpos := pinned_position acc hx (offset_lt_size hi)
        rw [if_pos hpin, ih acc hi (by rw [List.getElem?_map, hk, Option.map_some, hpos])]
        rw [hpin.1, pin, if_pos rfl, size_cons, offset_cons]
        congr 1
        ring
      · have hmn : m = n := by omega
        have hk' : positions[k]? = some ((acc * n + x) * size dst + offset dst index) := by
          rw [hk]
          congr 1
          ring
        have hx' : (if n = 1 then 0 else x) = x := by
          split <;> omega
        rw [if_neg hpin, ih (acc * n + x) hi hk', hmn, pin, hx', size_cons, offset_cons]
        congr 1
        ring

theorem getElem?_indices (hs : Stretches src dst) (hi : Within index dst) :
    (indices src dst (size dst))[offset dst index]? = some (offset src (pin src index)) := by
  have hlt := offset_lt_size hi
  unfold indices
  rw [if_neg (by omega), getElem?_pinAxes 0 hs hi]
  · rw [Nat.zero_mul, Nat.zero_add]
  · rw [List.getElem?_range hlt, Nat.zero_mul, Nat.zero_add]

theorem lt_size_of_mem_indices (hs : Stretches src dst) {k : Nat}
    (hk : k ∈ indices src dst (size dst)) : k < size src := by
  obtain ⟨j, hj⟩ := List.getElem?_of_mem hk
  have hlt : j < size dst := by
    rw [← length_indices src dst (size dst)]
    exact (List.getElem?_eq_some_iff.mp hj).1
  obtain ⟨index, hi, rfl⟩ := exists_offset_eq hlt
  rw [getElem?_indices hs hi, Option.some.injEq] at hj
  exact hj ▸ offset_lt_size (within_pin hs hi)

end Gather

end ArrayDispatch.Shape
