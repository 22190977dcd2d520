import ArrayDispatch.Proofs.Error.Bind
import ArrayDispatch.Proofs.Shape.Reconcile
import Mathlib.Data.List.Perm.Basic

/-!
Reconciliation does not depend on order or grouping. That of shapes is that of their ranks and, on
every axis, that of their extents as lengths, so its laws are those of lengths.
-/

namespace ArrayDispatch

/-- A way to agree on a common value. What is to agree can be taken in any order, the value that is
agreed on may take part, and two that agree can be replaced by what they agree on. -/
structure OrderFree {α : Type} (agree : List α → Attempt α) : Prop where
  perm : ∀ {xs ys : List α}, xs.Perm ys → ∀ z, agree xs = .ok z ↔ agree ys = .ok z
  absorbs : ∀ {xs : List α} {z : α}, agree xs = .ok z → agree (z :: xs) = .ok z
  grouped : ∀ (x y : α) (zs : List α) (z : α),
    agree (x :: y :: zs) = .ok z ↔ ∃ w, agree [x, y] = .ok w ∧ agree (w :: zs) = .ok z

/-! ## Lengths -/

def greatest (ns : List Nat) : Nat := ns.foldl max 0

theorem foldl_max_eq (ns : List Nat) (k : Nat) : ns.foldl max k = max k (greatest ns) := by
  induction ns generalizing k with
  | nil => exact (Nat.max_zero k).symm
  | cons n ns ih =>
    have hn : greatest (n :: ns) = max (max 0 n) (greatest ns) := ih (max 0 n)
    rw [List.foldl_cons, ih, hn]
    omega

theorem greatest_cons (n : Nat) (ns : List Nat) : greatest (n :: ns) = max n (greatest ns) := by
  rw [greatest, List.foldl_cons, foldl_max_eq, Nat.zero_max]

theorem greatest_perm {ms ns : List Nat} (h : ms.Perm ns) : greatest ms = greatest ns := by
  induction h with
  | nil => rfl
  | cons n _ ih => rw [greatest_cons, greatest_cons, ih]
  | swap m n ns =>
    simp only [greatest_cons]
    omega
  | trans _ _ ih ih' => exact ih.trans ih'

theorem reconcileLengths_eq_ok_iff_greatest {lens : List Nat} {n : Nat} :
    reconcileLengths lens = .ok n ↔ n = greatest lens ∧ ∀ m ∈ lens, m = 1 ∨ m = greatest lens :=
  reconcileLengths_eq_ok_iff

theorem orderFree_reconcileLengths : OrderFree reconcileLengths where
  perm h n := by
    simp only [reconcileLengths_eq_ok_iff_greatest, greatest_perm h, h.mem_iff]
  absorbs {lens n} h := by
    rw [reconcileLengths_eq_ok_iff_greatest] at h ⊢
    obtain ⟨rfl, hlens⟩ := h
    have hsame : greatest (greatest lens :: lens) = greatest lens := by
      rw [greatest_cons, Nat.max_self]
    rw [hsame]
    exact ⟨rfl, List.forall_mem_cons.mpr ⟨.inr rfl, hlens⟩⟩
  grouped l m lens n := by
    simp only [reconcileLengths_eq_ok_iff_greatest, greatest_cons, List.forall_mem_cons]
    have hnil : greatest [] = 0 := rfl
    rw [hnil]
    constructor
    · rintro ⟨rfl, hl, hm, hlens⟩
      refine ⟨max l m, ⟨by omega, by omega, by omega, by simp⟩, by omega, by omega, ?_⟩
      rw [Nat.max_assoc]
      exact hlens
    · rintro ⟨_, ⟨rfl, hl, hm, _⟩, rfl, hlm, hlens⟩
      refine ⟨by omega, by omega, by omega, ?_⟩
      rw [← Nat.max_assoc, ← Nat.max_zero m]
      exact hlens

namespace Shape

/-! ## Extents -/

section Extents

variable {shapes : List (List Nat)} {dst : List Nat}

theorem extent_map_range {n axis : Nat} (f : Nat → Nat) (h : axis < n) :
    extent axis ((List.range n).map f) = f axis := by
  have hne : (List.range n).map f ≠ [] := by
    rw [ne_eq, List.map_eq_nil_iff, List.range_eq_nil]
    omega
  rw [extent, if_neg (by simpa using hne), List.getD_eq_getElem?_getD, List.getElem?_map,
    List.getElem?_range h]
  rfl

theorem eq_of_extent_eq {s t : List Nat} (hlen : s.length = t.length)
    (h : ∀ axis, axis < s.length → extent axis s = extent axis t) : s = t := by
  refine List.ext_getElem hlen fun axis hs ht => ?_
  have hget : ∀ (u : List Nat) (hu : axis < u.length), extent axis u = u[axis] := by
    intro u hu
    have hne : u.isEmpty = false := by
      rw [List.isEmpty_eq_false_iff]
      exact List.ne_nil_of_length_pos (by omega)
    rw [extent, hne, if_neg (by decide), List.getD_eq_getElem?_getD, List.getElem?_eq_getElem hu]
    rfl
  rw [← hget s hs, ← hget t ht]
  exact h axis hs

/-- Shapes agree if their ranks do, apart from those without axes, and if their extents along every
axis agree as lengths. -/
theorem reconcile_eq_ok_iff_extents :
    reconcile shapes = .ok dst ↔
      dst.length = rank shapes ∧ (∀ s ∈ shapes, s = [] ∨ s.length = rank shapes) ∧
        ∀ axis, axis < rank shapes →
          reconcileLengths (shapes.map (extent axis)) = .ok (extent axis dst) := by
  have hwidest : ∀ axis, greatest (shapes.map (extent axis)) = widest shapes axis := fun _ => rfl
  simp only [reconcile_eq_ok_iff, reconcileLengths_eq_ok_iff_greatest, List.forall_mem_map, hwidest]
  constructor
  · rintro ⟨rfl, hranks, hextents⟩
    refine ⟨by simp, hranks, fun axis hx => ⟨extent_map_range _ hx, hextents axis hx⟩⟩
  · rintro ⟨hlen, hranks, hextents⟩
    refine ⟨eq_of_extent_eq (by simp [hlen]) fun axis hx => ?_, hranks,
      fun axis hx => (hextents axis hx).2⟩
    rw [hlen] at hx
    rw [extent_map_range _ hx]
    exact (hextents axis hx).1

theorem rank_cons (s : List Nat) (shapes : List (List Nat)) :
    rank (s :: shapes) = max s.length (rank shapes) :=
  greatest_cons _ _

theorem rank_nil : rank [] = 0 := rfl

/-- A shape without axes is what only such shapes agree on, so it has extent 1 where they do. -/
theorem extents_of_reconcile_pair {s t mid : List Nat} (h : reconcile [s, t] = .ok mid) {axis : Nat}
    (hx : mid = [] ∨ axis < mid.length) :
    reconcileLengths [extent axis s, extent axis t] = .ok (extent axis mid) := by
  obtain ⟨hlen, _, hextents⟩ := reconcile_eq_ok_iff_extents.mp h
  rcases hx with rfl | hx
  · simp only [rank_cons, rank_nil, List.length_nil] at hlen
    obtain rfl : s = [] := List.eq_nil_of_length_eq_zero (by omega)
    obtain rfl : t = [] := List.eq_nil_of_length_eq_zero (by omega)
    rfl
  · exact hextents axis (hlen ▸ hx)

/-- Two of the shapes that agree have a target of their own, which can stand for them. -/
theorem exists_target_of_reconcile {s t : List Nat} (h : reconcile (s :: t :: shapes) = .ok dst) :
    ∃ mid, reconcile [s, t] = .ok mid ∧ reconcile (mid :: shapes) = .ok dst := by
  obtain ⟨hlen, hranks, hextents⟩ := reconcile_eq_ok_iff_extents.mp h
  simp only [rank_cons, List.forall_mem_cons, ← List.length_eq_zero_iff] at hlen hranks hextents
  obtain ⟨hs, ht, hshapes⟩ := hranks
  have hpair := fun axis hx => (orderFree_reconcileLengths.grouped _ _ _ _).mp (hextents axis hx)
  obtain ⟨mid, hmid⟩ : ∃ mid, mid = (List.range (max s.length t.length)).map (widest [s, t]) :=
    ⟨_, rfl⟩
  have hmidLen : mid.length = max s.length t.length := by
    simp [hmid]
  have hst : reconcile [s, t] = .ok mid := by
    simp only [reconcile_eq_ok_iff_extents, rank_cons, rank_nil, Nat.max_zero,
      List.forall_mem_cons, ← List.length_eq_zero_iff]
    refine ⟨hmidLen, ⟨by omega, by omega, by simp⟩, fun axis hx => ?_⟩
    obtain ⟨w, hw, _⟩ := hpair axis (by omega)
    have hwidest : w = widest [s, t] axis := (reconcileLengths_eq_ok_iff_greatest.mp hw).1
    rw [hmid, extent_map_range _ hx, ← hwidest]
    exact hw
  refine ⟨mid, hst, ?_⟩
  simp only [reconcile_eq_ok_iff_extents, rank_cons, List.forall_mem_cons,
    ← List.length_eq_zero_iff]
  refine ⟨by omega, ⟨by omega, fun u hu => ?_⟩, fun axis hx => ?_⟩
  · have := hshapes u hu
    omega
  · obtain ⟨w, hw, hrest⟩ := hpair axis (by omega)
    have hx' : mid = [] ∨ axis < mid.length := by
      rw [← List.length_eq_zero_iff]
      omega
    cases hw.symm.trans (extents_of_reconcile_pair hst hx')
    exact hrest

theorem reconcile_of_target {s t mid : List Nat} (hst : reconcile [s, t] = .ok mid)
    (h : reconcile (mid :: shapes) = .ok dst) : reconcile (s :: t :: shapes) = .ok dst := by
  obtain ⟨hmidLen, hst', _⟩ := reconcile_eq_ok_iff_extents.mp hst
  obtain ⟨hlen, hranks, hextents⟩ := reconcile_eq_ok_iff_extents.mp h
  simp only [rank_cons, rank_nil, List.forall_mem_cons, ← List.length_eq_zero_iff]
    at hmidLen hst' hlen hranks hextents
  obtain ⟨hmid, hshapes⟩ := hranks
  simp only [reconcile_eq_ok_iff_extents, rank_cons, List.forall_mem_cons,
    ← List.length_eq_zero_iff]
  refine ⟨by omega, ⟨by omega, by omega, fun u hu => ?_⟩, fun axis hx => ?_⟩
  · have := hshapes u hu
    omega
  · have hx' : mid = [] ∨ axis < mid.length := by
      rw [← List.length_eq_zero_iff]
      omega
    exact (orderFree_reconcileLengths.grouped _ _ _ _).mpr
      ⟨extent axis mid, extents_of_reconcile_pair hst hx', hextents axis (by omega)⟩

end Extents

theorem orderFree_reconcile : OrderFree reconcile where
  perm {shapes shapes'} h dst := by
    have hrank : rank shapes = rank shapes' := greatest_perm (h.map _)
    have hlengths : ∀ axis n, reconcileLengths (shapes.map (extent axis)) = .ok n ↔
        reconcileLengths (shapes'.map (extent axis)) = .ok n := fun axis =>
      orderFree_reconcileLengths.perm (h.map _)
    simp only [reconcile_eq_ok_iff_extents, hrank, h.mem_iff, hlengths]
  absorbs {shapes dst} h := by
    rw [reconcile_eq_ok_iff_extents] at h ⊢
    obtain ⟨hlen, hranks, hextents⟩ := h
    have hrank : rank (dst :: shapes) = rank shapes := by
      rw [rank_cons, hlen, Nat.max_self]
    rw [hrank]
    exact ⟨hlen, List.forall_mem_cons.mpr ⟨.inr hlen, hranks⟩,
      fun axis hx => orderFree_reconcileLengths.absorbs (hextents axis hx)⟩
  grouped s t shapes dst :=
    ⟨exists_target_of_reconcile, fun ⟨_, hst, h⟩ => reconcile_of_target hst h⟩

theorem kind_of_reconcile_perm {shapes shapes' : List (List Nat)} (h : shapes.Perm shapes')
    {c c' : Cause} (hc : reconcile shapes = .error c) (hc' : reconcile shapes' = .error c') :
    c.ctorIdx = c'.ctorIdx := by
  have hrank : rank shapes = rank shapes' := greatest_perm (h.map _)
  have hsame : c = .shapes shapes ↔ c' = .shapes shapes' := by
    rw [eq_shapes_iff_of_reconcile_eq_error hc, eq_shapes_iff_of_reconcile_eq_error hc', hrank]
    simp only [h.mem_iff]
  rcases cause_of_reconcile_eq_error hc with rfl | rfl <;>
    rcases cause_of_reconcile_eq_error hc' with rfl | rfl
  · rfl
  · cases hsame.mpr rfl
  · cases hsame.mp rfl
  · rfl

end Shape

/-- Neither the common length of operands nor their common shape depends on the order in which they
are given or on how they are grouped; shapes without axes and extents of 0 may be among them. -/
theorem reconciliation_orderFree : OrderFree reconcileLengths ∧ OrderFree Shape.reconcile :=
  ⟨orderFree_reconcileLengths, Shape.orderFree_reconcile⟩

end ArrayDispatch
