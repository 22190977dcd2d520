import ArrayDispatch.Proofs.Shape.Index
import Mathlib.Algebra.BigOperators.Ring.List

/-!
Shapes that agree on a target. Every one of them can be repeated to the target, and an operand
without axes keeps it from being empty.
-/

namespace ArrayDispatch.Shape

/-- An array of shape `src` can be read as one of shape `dst`: it has no axes, or can be repeated
along those of extent 1. -/
def Expands (src dst : List Nat) : Prop := src = [] ∨ Stretches src dst

section Reconcile

variable {shapes : List (List Nat)} {dst : List Nat}

theorem extent_le_widest {s : List Nat} (h : s ∈ shapes) (axis : Nat) :
    extent axis s ≤ widest shapes axis :=
  (le_foldl_max _ 0).2 _ (List.mem_map_of_mem h)

theorem cause_of_reconcile_eq_error {c : Cause} (h : reconcile shapes = .error c) :
    c = .ranks shapes ∨ c = .shapes shapes := by
  unfold reconcile at h
  simp only at h
  split at h
  · cases h
    exact .inl rfl
  · split at h
    · cases h
    · cases h
      exact .inr rfl

def rank (shapes : List (List Nat)) : Nat := (shapes.map List.length).foldl max 0

theorem any_rank_eq_false_iff :
    (shapes.any fun s => !s.isEmpty && s.length != rank shapes) = false ↔
      ∀ s ∈ shapes, s = [] ∨ s.length = rank shapes := by
  simp only [List.any_eq_false, Bool.and_eq_true, Bool.not_eq_true', bne_iff_ne, ne_eq, not_and,
    Decidable.not_not, List.isEmpty_eq_false_iff]
  exact forall₂_congr fun s _ => (Decidable.or_iff_not_imp_left).symm

theorem reconcile_eq_ok_iff :
    reconcile shapes = .ok dst ↔
      dst = (List.range (rank shapes)).map (widest shapes) ∧
        (∀ s ∈ shapes, s = [] ∨ s.length = rank shapes) ∧
        ∀ axis, axis < rank shapes → ∀ s ∈ shapes,
          extent axis s = 1 ∨ extent axis s = widest shapes axis := by
  have hextents : ((List.range (rank shapes)).all fun axis => shapes.all fun s =>
      extent axis s == 1 || extent axis s == widest shapes axis) = true ↔
      ∀ axis, axis < rank shapes → ∀ s ∈ shapes,
        extent axis s = 1 ∨ extent axis s = widest shapes axis := by
    simp only [List.all_eq_true, List.mem_range, Bool.or_eq_true, beq_iff_eq]
  rw [← any_rank_eq_false_iff, ← hextents]
  change (if (shapes.any fun s => !s.isEmpty && s.length != rank shapes) = true then
      (throw (.ranks shapes) : Attempt (List Nat))
    else if ((List.range (rank shapes)).all fun axis => shapes.all fun s =>
        extent axis s == 1 || extent axis s == widest shapes axis) = true then
      pure ((List.range (rank shapes)).map (widest shapes))
    else throw (.shapes shapes)) = .ok dst ↔ _
  split
  · simp [*, throw, throwThe, MonadExceptOf.throw]
  · split <;> simp [*, pure, Except.pure, throw, throwThe, MonadExceptOf.throw, eq_comm]

theorem of_reconcile_eq_ok (h : reconcile shapes = .ok dst) :
    dst = (List.range dst.length).map (widest shapes) ∧
      (∀ s ∈ shapes, s = [] ∨ s.length = dst.length) ∧
      ∀ axis, axis < dst.length → ∀ s ∈ shapes,
        extent axis s = 1 ∨ extent axis s = widest shapes axis := by
  obtain ⟨hdst, hranks, hextents⟩ := reconcile_eq_ok_iff.mp h
  have hlen : dst.length = rank shapes := by
    rw [hdst, List.length_map, List.length_range]
  rw [hlen]
  exact ⟨hdst, hranks, hextents⟩

/-- Shapes are rejected by their extents only if their ranks agree. -/
theorem eq_shapes_iff_of_reconcile_eq_error {c : Cause} (h : reconcile shapes = .error c) :
    c = .shapes shapes ↔ ∀ s ∈ shapes, s = [] ∨ s.length = rank shapes := by
  rw [← any_rank_eq_false_iff]
  unfold reconcile at h
  unfold rank
  simp only at h
  split at h
  · rename_i hany
    cases h
    simp [hany]
  · rename_i hany
    split at h
    · cases h
    · cases h
      simpa using hany

theorem expands_of_reconcile (h : reconcile shapes = .ok dst) {s : List Nat} (hs : s ∈ shapes) :
    Expands s dst := by
  obtain ⟨hdst, hranks, hextents⟩ := of_reconcile_eq_ok h
  rcases hranks s hs with rfl | hlen
  · exact .inl rfl
  · refine .inr (List.forall₂_iff_get.mpr ⟨hlen, fun axis h₁ h₂ => ?_⟩)
    have hsrc : extent axis s = s.get ⟨axis, h₁⟩ := by
      rw [extent, if_neg (by simpa using List.ne_nil_of_length_pos (Nat.zero_lt_of_lt h₁)),
        List.getD_eq_getElem?_getD, List.getElem?_eq_getElem h₁]
      rfl
    have hwide : widest shapes axis = dst.get ⟨axis, h₂⟩ := by
      have hget : dst[axis]? = ((List.range dst.length).map (widest shapes))[axis]? :=
        congrArg (·[axis]?) hdst
      rw [List.getElem?_map, List.getElem?_range h₂, List.getElem?_eq_getElem h₂] at hget
      exact (Option.some.inj hget).symm
    rw [← hsrc, ← hwide]
    exact hextents axis h₂ s hs

theorem size_pos_of_nil_mem (h : reconcile shapes = .ok dst) (hnil : [] ∈ shapes) :
    0 < size dst := by
  rw [(of_reconcile_eq_ok h).1]
  refine Nat.pos_of_ne_zero (List.prod_ne_zero fun hzero => ?_)
  obtain ⟨axis, _, haxis⟩ := List.mem_map.mp hzero
  have hone : 1 ≤ widest shapes axis := extent_le_widest hnil axis
  omega

theorem eq_nil_of_forall_eq_nil (h : reconcile shapes = .ok dst) (hnil : ∀ s ∈ shapes, s = []) :
    dst = [] := by
  have hrank : (shapes.map List.length).foldl max 0 = 0 := by
    have hzero : ∀ n ∈ shapes.map List.length, n = 0 := by
      intro n hn
      obtain ⟨s, hs, rfl⟩ := List.mem_map.mp hn
      rw [hnil s hs, List.length_nil]
    generalize shapes.map List.length = ns at hzero
    induction ns with
    | nil => rfl
    | cons n ns ih =>
      rw [List.foldl_cons, hzero n (by simp)]
      exact ih fun m hm => hzero m (List.mem_cons_of_mem _ hm)
  unfold reconcile at h
  simp only [hrank] at h
  split at h
  · cases h
  · split at h <;> cases h
    rfl

/-- A target whose elements cannot be counted is the shape of no operand that has been counted, so
some operand is stretched to it. -/
theorem exists_stretched (h : reconcile shapes = .ok dst) (hshapes : ∀ s ∈ shapes, Fits s)
    (hdst : ¬Fits dst) : ∃ s ∈ shapes, s ≠ [] ∧ s ≠ dst := by
  by_contra hnone
  have hnil : ∀ s ∈ shapes, s = [] := by
    intro s hs
    by_contra hne
    exact hnone ⟨s, hs, hne, fun heq => hdst (heq ▸ hshapes s hs)⟩
  rw [eq_nil_of_forall_eq_nil h hnil] at hdst
  exact hdst fits_nil

end Reconcile

end ArrayDispatch.Shape
