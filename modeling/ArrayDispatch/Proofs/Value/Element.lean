import ArrayDispatch.Proofs.Error.Bind
import ArrayDispatch.Shape
import ArrayDispatch.Value.Basic

/-!
Operands side by side: their lengths, the length they agree on, and the elements they contribute to
one position.
-/

namespace ArrayDispatch

namespace Value

def length? : Value → Option Nat
  | scalar _ => none
  | array a => some a.length

/-- What an array contributes to position `i`; an array of length 1 repeats its element. -/
def element? (v : Value) (i : Nat) : Option Value :=
  match v with
  | scalar _ => none
  | array a => a.payload.get? (if a.length = 1 then 0 else i)

end Value

/-- The operands are arrays of these lengths. -/
def Lengths (vs : List Value) (lens : List Nat) : Prop :=
  List.Forall₂ (fun v n => v.length? = some n) vs lens

/-- The operands contribute these elements to position `i`. -/
def Elements (vs : List Value) (i : Nat) (us : List Value) : Prop :=
  List.Forall₂ (fun v u => v.element? i = some u) vs us

/-- Lengths agree on `n`: it is the greatest, and each of them is 1 or `n`. -/
structure Reconciles (lens : List Nat) (n : Nat) : Prop where
  mem : n ∈ lens
  le : ∀ m ∈ lens, m ≤ n
  one_or_eq : ∀ m ∈ lens, m = 1 ∨ m = n

theorem exists_mem_of_forall₂ {α β : Type} {R : α → β → Prop} {xs : List α} {ys : List β}
    (h : List.Forall₂ R xs ys) {y : β} (hy : y ∈ ys) : ∃ x ∈ xs, R x y := by
  induction h with
  | nil => cases hy
  | cons hr _ ih =>
    rcases List.mem_cons.mp hy with rfl | hy
    · exact ⟨_, by simp, hr⟩
    · obtain ⟨x, hx, hxy⟩ := ih hy
      exact ⟨x, List.mem_cons_of_mem _ hx, hxy⟩

theorem foldl_max_mem (ns : List Nat) (k : Nat) :
    ns.foldl max k = k ∨ ns.foldl max k ∈ ns := by
  induction ns generalizing k with
  | nil => exact .inl rfl
  | cons n ns ih =>
    rw [List.foldl_cons]
    rcases ih (max k n) with h | h
    · rw [h]
      rcases Nat.le_total k n with hkn | hnk
      · rw [Nat.max_eq_right hkn]
        exact .inr (by simp)
      · rw [Nat.max_eq_left hnk]
        exact .inl rfl
    · exact .inr (List.mem_cons_of_mem _ h)

theorem reconcileLengths_eq_ok_iff_reconciles {lens : List Nat} {n : Nat} (h : lens ≠ []) :
    reconcileLengths lens = .ok n ↔ Reconciles lens n := by
  have hle := (le_foldl_max lens 0).2
  have hmem : lens.foldl max 0 ∈ lens := by
    rcases foldl_max_mem lens 0 with hz | hm
    · obtain ⟨m, hm⟩ := List.exists_mem_of_ne_nil lens h
      have : m = lens.foldl max 0 := by
        have := hle m hm
        omega
      exact this ▸ hm
    · exact hm
  rw [reconcileLengths_eq_ok_iff]
  constructor
  · rintro ⟨rfl, hone⟩
    exact ⟨hmem, hle, hone⟩
  · rintro ⟨hn, hmax, hone⟩
    have heq : n = lens.foldl max 0 := by
      have h1 := hle n hn
      have h2 := hmax _ hmem
      omega
    exact ⟨heq, fun m hm => heq ▸ hone m hm⟩

theorem reconcileLengths_eq_error_iff {lens : List Nat} {c : Cause} (h : lens ≠ []) :
    reconcileLengths lens = .error c ↔ c = .sizes lens ∧ ¬∃ n, Reconciles lens n := by
  simp only [← reconcileLengths_eq_ok_iff_reconciles h]
  unfold reconcileLengths
  simp only
  split <;> simp [pure, Except.pure, throw, throwThe, MonadExceptOf.throw, eq_comm]

theorem Reconciles.unique {lens : List Nat} {m n : Nat} (hm : Reconciles lens m)
    (hn : Reconciles lens n) : m = n :=
  Nat.le_antisymm (hn.le m hm.mem) (hm.le n hn.mem)

section Elements

variable {vs us ws : List Value} {lens : List Nat} {i n : Nat}

theorem Elements.unique (hu : Elements vs i us) (hw : Elements vs i ws) : us = ws :=
  List.right_unique_forall₂' (fun _ _ _ h h' => Option.some.inj (h.symm.trans h')) hu hw

theorem Lengths.unique {ms ns : List Nat} (hm : Lengths vs ms) (hn : Lengths vs ns) : ms = ns :=
  List.right_unique_forall₂' (fun _ _ _ h h' => Option.some.inj (h.symm.trans h')) hm hn

theorem Lengths.exists_of_mem (hl : Lengths vs lens) (hn : n ∈ lens) :
    ∃ a, .array a ∈ vs ∧ a.length = n := by
  induction hl with
  | nil => cases hn
  | @cons v m vs lens hv _ ih =>
    rcases List.mem_cons.mp hn with rfl | hn
    · cases v with
      | scalar s => cases hv
      | array a => exact ⟨a, by simp, Option.some.inj hv⟩
    · obtain ⟨a, ha, hlen⟩ := ih hn
      exact ⟨a, List.mem_cons_of_mem _ ha, hlen⟩

theorem Lengths.length_mem (hl : Lengths vs lens) {a : Object} (ha : .array a ∈ vs) :
    a.length ∈ lens := by
  obtain ⟨n, hn, hlen⟩ := exists_mem_of_forall₂ hl.flip ha
  exact Option.some.inj hlen ▸ hn

theorem reconciles_zero_iff (hl : Lengths vs lens) (hne : vs ≠ []) :
    Reconciles lens 0 ↔ ∀ v ∈ vs, v.length? = some 0 := by
  constructor
  · intro hr v hv
    obtain ⟨n, hn, hlen⟩ := exists_mem_of_forall₂ hl.flip hv
    rw [hlen, Nat.le_zero.mp (hr.le n hn)]
  · intro h
    have hzero : ∀ n ∈ lens, n = 0 := by
      intro n hn
      obtain ⟨v, hv, hlen⟩ := exists_mem_of_forall₂ hl hn
      exact Option.some.inj (hlen.symm.trans (h v hv))
    obtain ⟨v, hv⟩ := List.exists_mem_of_ne_nil vs hne
    obtain ⟨n, hn, _⟩ := exists_mem_of_forall₂ hl.flip hv
    exact ⟨hzero n hn ▸ hn, fun m hm => Nat.le_of_eq (hzero m hm), fun m hm => .inr (hzero m hm)⟩

/-- Every operand that is not read as a tensor has an element for a position below the common
length. -/
theorem exists_elements (hl : Lengths vs lens) (hr : Reconciles lens n) (hi : i < n)
    (hget : ∀ a, .array a ∈ vs → ∀ j, j < a.length → ∃ u, a.payload.get? j = some u) :
    ∃ us, Elements vs i us := by
  have hone := hr.one_or_eq
  clear hr
  induction hl with
  | nil => exact ⟨[], .nil⟩
  | @cons v m vs lens hv _ ih =>
    obtain ⟨us, hus⟩ := ih (fun a ha => hget a (List.mem_cons_of_mem _ ha))
      fun m hm => hone m (List.mem_cons_of_mem _ hm)
    cases v with
    | scalar s => cases hv
    | array a =>
      cases hv
      have hj : (if a.length = 1 then 0 else i) < a.length := by
        have := hone a.length (by simp)
        split <;> omega
      obtain ⟨u, hu⟩ := hget a (by simp) _ hj
      exact ⟨u :: us, .cons hu hus⟩

end Elements

end ArrayDispatch
