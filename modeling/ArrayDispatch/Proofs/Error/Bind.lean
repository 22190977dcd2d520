import ArrayDispatch.Error.Basic
import Mathlib.Data.List.Forall2

/-!
Computations that may fail: when a sequence of them succeeds.
-/

namespace ArrayDispatch

section Bind

variable {ε α β : Type}

theorem bind_eq_ok_iff {x : Except ε α} {f : α → Except ε β} {b : β} :
    (x >>= f) = .ok b ↔ ∃ a, x = .ok a ∧ f a = .ok b := by
  cases x <;> simp [bind, Except.bind]

theorem bind_eq_error_iff {x : Except ε α} {f : α → Except ε β} {e : ε} :
    (x >>= f) = .error e ↔ x = .error e ∨ ∃ a, x = .ok a ∧ f a = .error e := by
  cases x <;> simp [bind, Except.bind]

theorem map_eq_ok_iff {x : Except ε α} {f : α → β} {b : β} :
    x.map f = .ok b ↔ ∃ a, x = .ok a ∧ f a = b := by
  cases x <;> simp [Except.map]

theorem map_eq_error_iff {x : Except ε α} {f : α → β} {e : ε} :
    x.map f = .error e ↔ x = .error e := by
  cases x <;> simp [Except.map]

theorem mapM_eq_ok_iff {f : α → Except ε β} {xs : List α} {ys : List β} :
    xs.mapM f = .ok ys ↔ List.Forall₂ (fun x y => f x = .ok y) xs ys := by
  induction xs generalizing ys with
  | nil => cases ys <;> simp [pure, Except.pure]
  | cons x xs ih =>
    rw [List.mapM_cons]
    constructor
    · intro h
      obtain ⟨y, hy, h⟩ := bind_eq_ok_iff.mp h
      obtain ⟨zs, hzs, h⟩ := bind_eq_ok_iff.mp h
      cases h
      exact .cons hy (ih.mp hzs)
    · intro h
      cases h with
      | cons hy hys =>
        rw [hy, bind_eq_ok_iff]
        refine ⟨_, rfl, ?_⟩
        rw [ih.mpr hys]
        rfl

theorem exists_of_mapM_eq_error {f : α → Except ε β} {xs : List α} {e : ε}
    (h : xs.mapM f = .error e) : ∃ x ∈ xs, f x = .error e := by
  induction xs with
  | nil => cases h
  | cons x xs ih =>
    rw [List.mapM_cons] at h
    rcases bind_eq_error_iff.mp h with hx | ⟨y, _, h⟩
    · exact ⟨x, by simp, hx⟩
    · rcases bind_eq_error_iff.mp h with hxs | ⟨ys, _, h⟩
      · obtain ⟨x', hx', he⟩ := ih hxs
        exact ⟨x', List.mem_cons_of_mem _ hx', he⟩
      · cases h

/-- If some member fails, and every one that does fails in this way, the sequence fails so. -/
theorem mapM_eq_error {f : α → Except ε β} {xs : List α} {e : ε} {x : α} (hx : x ∈ xs)
    (hfx : f x = .error e) (hall : ∀ y ∈ xs, ∀ e', f y = .error e' → e' = e) :
    xs.mapM f = .error e := by
  induction xs with
  | nil => cases hx
  | cons y ys ih =>
    rw [List.mapM_cons]
    cases hy : f y with
    | error e' =>
      rw [hall y (by simp) e' hy]
      rfl
    | ok b =>
      have hne : x ≠ y := by
        rintro rfl
        cases hfx.symm.trans hy
      rw [ih ((List.mem_cons.mp hx).resolve_left hne) fun z hz =>
        hall z (List.mem_cons_of_mem _ hz)]
      rfl

end Bind

section Trail

variable {α : Type}

theorem lift_eq_ok_iff {x : Attempt α} {a : α} : x.lift = .ok a ↔ x = .ok a := by
  cases x <;> simp [fail]

theorem lift_eq_error_iff {x : Attempt α} {e : DispatchError} :
    x.lift = .error e ↔ ∃ c, x = .error c ∧ e = .ofCause c := by
  cases x <;> simp [fail, eq_comm]

theorem escaping_eq_error_iff {f : Frame} {x : Dispatched α} {e : DispatchError} :
    escaping f x = .error e ↔ ∃ e', x = .error e' ∧ e = e'.within f := by
  cases x <;> simp [eq_comm]

end Trail

end ArrayDispatch
