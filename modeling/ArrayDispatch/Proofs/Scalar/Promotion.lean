import ArrayDispatch.Proofs.Scalar.Word
import ArrayDispatch.Scalar.Eval

/-!
Promotion of scalars: the highest kind among the operands of an evaluation, and what booleans and
integers become there.
-/

namespace ArrayDispatch

/-- One of the scalars has the kind, and none has a higher one. -/
structure Kind.HighestOf (k : Kind) (ss : List Scalar) : Prop where
  exists_mem : ∃ s ∈ ss, s.kind = k
  rank_le : ∀ s ∈ ss, s.kind.rank ≤ k.rank

namespace Kind

theorem highestOf_singleton (s : Scalar) : s.kind.HighestOf [s] where
  exists_mem := ⟨s, List.mem_singleton_self s, rfl⟩
  rank_le := by simp

theorem HighestOf.cons {k : Kind} {ss : List Scalar} (h : k.HighestOf ss) (s : Scalar) :
    (s.kind.promote k).HighestOf (s :: ss) where
  exists_mem := by
    obtain ⟨r, hr, hk⟩ := h.exists_mem
    unfold promote
    split
    · exact ⟨r, List.mem_cons_of_mem s hr, hk⟩
    · exact ⟨s, List.mem_cons_self, rfl⟩
  rank_le := by
    intro r hr
    rw [rank_promote]
    rcases List.mem_cons.mp hr with rfl | hr
    · exact Nat.le_max_left _ _
    · exact Nat.le_trans (h.rank_le r hr) (Nat.le_max_right _ _)

theorem highestOf_pair (a b : Scalar) : (a.kind.promote b.kind).HighestOf [a, b] :=
  (highestOf_singleton b).cons a

theorem highestOf_triple (a b c : Scalar) :
    ((a.kind.promote b.kind).promote c.kind).HighestOf [a, b, c] := by
  rw [promote_assoc]
  exact (highestOf_pair b c).cons a

theorem exists_highestOf {ss : List Scalar} (h : ss ≠ []) : ∃ k : Kind, k.HighestOf ss := by
  induction ss with
  | nil => exact absurd rfl h
  | cons s ss ih =>
    by_cases hnil : ss = []
    · subst hnil
      exact ⟨s.kind, highestOf_singleton s⟩
    · obtain ⟨k, hk⟩ := ih hnil
      exact ⟨s.kind.promote k, hk.cons s⟩

theorem HighestOf.unique {k k' : Kind} {ss : List Scalar} (h : k.HighestOf ss)
    (h' : k'.HighestOf ss) : k = k' := by
  obtain ⟨s, hs, rfl⟩ := h.exists_mem
  obtain ⟨s', hs', rfl⟩ := h'.exists_mem
  exact rank_inj.mp (Nat.le_antisymm (h'.rank_le s hs) (h.rank_le s' hs'))

theorem exists_integer_highestOf {ss : List Scalar} (hfloat : ∀ s ∈ ss, s.kind.isFloat = false)
    (hbool : ∃ s ∈ ss, s.kind ≠ .bool) : ∃ t, (integer t).HighestOf ss := by
  obtain ⟨s, hs, hne⟩ := hbool
  obtain ⟨k, hk⟩ := exists_highestOf (List.ne_nil_of_mem hs)
  cases k with
  | bool => exact absurd (rank_inj.mp (Nat.le_zero.mp (hk.rank_le s hs))) hne
  | integer t => exact ⟨t, hk⟩
  | float f =>
    obtain ⟨r, hr, hkind⟩ := hk.exists_mem
    have hr := hfloat r hr
    rw [hkind] at hr
    cases hr

end Kind

namespace Scalar

def integer? : Scalar → Option Int
  | ⟨.bool, b⟩ => some (if b then 1 else 0)
  | ⟨.integer t, x⟩ => some (t.toInt x)
  | ⟨.float _, _⟩ => none

theorem isFloat_of_integer? {s : Scalar} {z : Int} (h : s.integer? = some z) :
    s.kind.isFloat = false := by
  obtain ⟨_ | t | f, x⟩ := s
  · rfl
  · rfl
  · cases h

/-- The words of 64 bits on the way leave no trace on booleans and integers. -/
theorem store_of_integer? {s : Scalar} {z : Int} (h : s.integer? = some z) (t : IntType) :
    s.store (.integer t) = t.ofInt z := by
  have hword : s.toWord t.widest = t.widest.ofInt z := by
    obtain ⟨_ | u | f, x⟩ := s <;> cases h <;> rfl
  change t.ofInt (t.widest.toInt (s.toWord t.widest)) = _
  rw [hword, IntType.ofInt_toInt_ofInt t.width_le_widest]

theorem toElem_of_integer? {s : Scalar} {z : Int} (h : s.integer? = some z) (t : IntType) :
    s.toElem (.integer t) = t.ofInt z := by
  by_cases hkind : s.kind = .integer t
  · obtain ⟨k, x⟩ := s
    subst hkind
    cases h
    exact (toElem_self _).trans (t.ofInt_toInt x).symm
  · rw [toElem, dif_neg hkind, store_of_integer? h]

theorem binary_of_promote {op : Op} (hop : op ≠ .truediv) {a b : Scalar} {k : Kind}
    (hk : a.kind.promote b.kind = k) :
    binary op a b = (onElems op k (a.toElem k) (b.toElem k)).map (⟨k, ·⟩) := by
  subst hk
  exact if_neg fun h => hop h.1

theorem binary_integers {a b : Scalar} (ha : a.kind.isFloat = false) (hb : b.kind.isFloat = false)
    (hbool : a.kind ≠ .bool ∨ b.kind ≠ .bool) :
    ∃ t, (Kind.integer t).HighestOf [a, b] ∧ ∀ op ≠ Op.truediv, binary op a b =
      (t.binary op (a.toElem (.integer t)) (b.toElem (.integer t))).map (⟨.integer t, ·⟩) := by
  have hfloats : ∀ s ∈ [a, b], s.kind.isFloat = false := by simp [ha, hb]
  have hbools : ∃ s ∈ [a, b], s.kind ≠ .bool := by simpa using hbool
  obtain ⟨t, ht⟩ := Kind.exists_integer_highestOf hfloats hbools
  exact ⟨t, ht, fun _ hop => binary_of_promote hop ((Kind.highestOf_pair a b).unique ht)⟩

theorem fma_of_promote {a b c : Scalar} {k : Kind}
    (hk : (a.kind.promote b.kind).promote c.kind = k) :
    fma a b c = (fmaElems k (a.toElem k) (b.toElem k) (c.toElem k)).map (⟨k, ·⟩) := by
  subst hk
  rfl

end Scalar

end ArrayDispatch
