import ArrayDispatch.Error.Basic

/-!
Reconciliation of lengths and shapes, and the indices that expand an array of one shape to
another.
-/

namespace ArrayDispatch

/-- Common length of operands, of which those of length 1 are repeated: every length is 1 or the
greatest. -/
def reconcileLengths (lens : List Nat) : Attempt Nat :=
  let len := lens.foldl max 0
  if lens.all fun n => n == 1 || n == len then pure len else throw (.sizes lens)

theorem le_foldl_max (ns : List Nat) (k : Nat) :
    k ≤ ns.foldl max k ∧ ∀ n ∈ ns, n ≤ ns.foldl max k := by
  induction ns generalizing k with
  | nil => simp
  | cons m ns ih =>
    obtain ⟨hk, hn⟩ := ih (max k m)
    have hm : m ≤ ns.foldl max (max k m) := Nat.le_trans (Nat.le_max_right k m) hk
    refine ⟨Nat.le_trans (Nat.le_max_left k m) hk, fun n h => ?_⟩
    rcases List.mem_cons.mp h with rfl | h
    · exact hm
    · exact hn n h

theorem reconcileLengths_eq_ok_iff {lens : List Nat} {n : Nat} :
    reconcileLengths lens = .ok n ↔
      n = lens.foldl max 0 ∧ ∀ m ∈ lens, m = 1 ∨ m = lens.foldl max 0 := by
  unfold reconcileLengths
  simp only
  split
  · rename_i h
    simp at h
    simp [pure, Except.pure, eq_comm (a := n)]
    exact fun _ => h
  · rename_i h
    simp [throw, throwThe, MonadExceptOf.throw] at h ⊢
    intro _
    exact h

/-- Sizes are words of 64 bits. -/
def IsSize (n : Nat) : Prop := n < 0x10000000000000000

instance (n : Nat) : Decidable (IsSize n) := inferInstanceAs (Decidable (n < 0x10000000000000000))

/-- Products of sizes are checked: one that is no size ends the run. -/
def mulSizes (m n : Nat) : Attempt Nat :=
  if IsSize (m * n) then pure (m * n) else throw .overflow

theorem mulSizes_of_isSize {m n : Nat} (h : IsSize (m * n)) : mulSizes m n = .ok (m * n) := if_pos h

theorem mulSizes_of_not_isSize {m n : Nat} (h : ¬IsSize (m * n)) :
    mulSizes m n = .error .overflow :=
  if_neg h

namespace Shape

/-- Number of elements, also where no word holds it. -/
def size (shape : List Nat) : Nat := shape.foldr (· * ·) 1

/-- Number of elements, multiplied up from the extent of the first axis. -/
def count : List Nat → Attempt Nat
  | [] => pure 1
  | n :: shape => shape.foldlM mulSizes n

/-- Extent along an axis; a shape without axes fits everywhere. -/
def extent (axis : Nat) (shape : List Nat) : Nat :=
  if shape.isEmpty then 1 else shape.getD axis 1

/-- Greatest extent of any shape along an axis. -/
def widest (shapes : List (List Nat)) (axis : Nat) : Nat :=
  (shapes.map (extent axis)).foldl max 0

/-- Target shape of operands. Shapes without axes fit any shape; the others have one rank, and
their extent along each axis is 1 or the greatest. -/
def reconcile (shapes : List (List Nat)) : Attempt (List Nat) :=
  let rank := (shapes.map List.length).foldl max 0
  let target := (List.range rank).map (widest shapes)
  if shapes.any fun s => !s.isEmpty && s.length != rank then throw (.ranks shapes)
  else if (List.range rank).all fun axis =>
      shapes.all fun s => extent axis s == 1 || extent axis s == widest shapes axis then
    pure target
  else throw (.shapes shapes)

/-- One step of `indices` per axis, outermost first. A flat index into blocks of `block` elements
loses its coordinate on an axis of extent 1 that is expanded to `n`. -/
def pinAxes (index : List Nat) (block : Nat) : List (Nat × Nat) → List Nat
  | [] => index
  | (m, n) :: axes =>
    let next := block / n
    let index :=
      if m = 1 ∧ n ≠ 1 then index.map fun x => x % next + x / block * next else index
    pinAxes index next axes

/-- For each of the `block` flat positions of shape `dst`, the position of `src` that it repeats.
Both shapes have one rank. -/
def indices (src dst : List Nat) (block : Nat) : List Nat :=
  if block = 0 then [] else pinAxes (List.range block) block (src.zip dst)

/-- The positions of `src` that an array of shape `dst` repeats. -/
def gather (src dst : List Nat) : Attempt (List Nat) := (count dst).map (indices src dst)

end Shape

end ArrayDispatch
