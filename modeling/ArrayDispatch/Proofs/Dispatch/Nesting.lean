import ArrayDispatch.Dispatch.Apply
import Mathlib.Data.List.Chain

/-!
Calls inside calls. The calls that a call makes are those on whose answers its outcome depends,
when nested calls may be answered in any way. Main statement: where calls nest at most `n` deep, no
chain of nested calls is longer than `n`, and the dispatcher is the limit that it stands for: any
`n` levels of calls lead to its outcome, whatever is below them.
-/

namespace ArrayDispatch

/-- A call with all that it is given. -/
structure Invocation where
  call : Call
  held : List Value
  site : Site
  operands : List Value

namespace Dispatcher

def run (self : Dispatcher) (q : Invocation) : Outcome := self q.call q.held q.site q.operands

/-- Two dispatchers answer the calls in `P` alike. -/
def AgreesOn (self self' : Dispatcher) (P : Invocation → Prop) : Prop :=
  ∀ q, P q → self.run q = self'.run q

theorem AgreesOn.mono {self self' : Dispatcher} {P Q : Invocation → Prop}
    (h : self.AgreesOn self' Q) (hpq : ∀ q, P q → Q q) : self.AgreesOn self' P :=
  fun q hq => h q (hpq q hq)

end Dispatcher

namespace Registry

variable (r : Registry)

/-- `n` levels of calls, of which the last hands its nested calls to `self`. -/
def nestedIn (self : Dispatcher) : Nat → Dispatcher
  | 0 => self
  | n + 1 => r.step (nestedIn self n)

/-- The nested calls of `q` are in `P`: its outcome is the same however all others are answered. -/
def MakesOnly (P : Invocation → Prop) (q : Invocation) : Prop :=
  ∀ self self' : Dispatcher, self.AgreesOn self' P → (r.step self).run q = (r.step self').run q

/-- `q` makes the nested call `q'`: there are answers to its other calls with which its outcome
depends on the answer to `q'`. -/
def Nests (q q' : Invocation) : Prop := ¬r.MakesOnly (· ≠ q') q

/-- `q` makes nested calls that nest less than `n` deep themselves. -/
def NestsWithin : Nat → Invocation → Prop
  | 0, _ => False
  | n + 1, q => r.MakesOnly (NestsWithin n) q

/-- A call comes to an end, with at most `n` calls one inside the other: counting the call itself,
no chain of nested calls is longer, and `n` levels or more lead to what the dispatcher does,
whatever is below them. Its nested calls then go to the dispatcher itself. -/
structure NestsAtMost (n : Nat) (q : Invocation) : Prop where
  chain_le : ∀ qs, List.IsChain r.Nests (q :: qs) → (q :: qs).length ≤ n
  settled : ∀ self m, n ≤ m → (r.nestedIn self m).run q = r.apply.run q
  apply_eq : r.apply.run q = (r.step r.apply).run q

variable {r} {P Q : Invocation → Prop} {q q' : Invocation} {n : Nat}

theorem MakesOnly.mono (h : r.MakesOnly P q) (hpq : ∀ p, P p → Q p) : r.MakesOnly Q q :=
  fun self self' hagree => h self self' (hagree.mono hpq)

theorem MakesOnly.of_nests (h : r.MakesOnly P q) (hn : r.Nests q q') : P q' := by
  by_contra hp
  refine hn (h.mono fun p hpp heq => hp ?_)
  exact heq ▸ hpp

theorem NestsWithin.chain_le (h : r.NestsWithin n q) {qs : List Invocation}
    (hc : List.IsChain r.Nests (q :: qs)) : (q :: qs).length ≤ n := by
  induction n generalizing q qs with
  | zero => exact h.elim
  | succ n ih =>
    cases qs with
    | nil => simp
    | cons q' qs =>
      obtain ⟨hn, hrest⟩ := List.isChain_cons_cons.mp hc
      exact Nat.succ_le_succ (ih (MakesOnly.of_nests h hn) hrest)

/-- Levels below those that a call can reach make no difference. -/
theorem NestsWithin.run_eq (h : r.NestsWithin n q) {m m' : Nat} (hm : n ≤ m) (hm' : n ≤ m')
    (self self' : Dispatcher) : (r.nestedIn self m).run q = (r.nestedIn self' m').run q := by
  induction n generalizing q m m' with
  | zero => exact h.elim
  | succ n ih =>
    obtain ⟨m, rfl⟩ := Nat.exists_eq_add_of_le' hm
    obtain ⟨m', rfl⟩ := Nat.exists_eq_add_of_le' hm'
    exact h _ _ fun p hp => ih hp (Nat.le_add_left n m) (Nat.le_add_left n m')

theorem applyWithin_eq_nestedIn (n : Nat) : r.applyWithin n = r.nestedIn (r.applyWithin 0) n := by
  induction n with
  | zero => rfl
  | succ n ih => exact congrArg r.step ih

theorem depth_add_two_le_levels (r : Registry) (vs : List Value) :
    r.types.depth + 2 ≤ r.levels vs :=
  Nat.le_mul_of_pos_right _ (by omega)

theorem run_apply_eq (r : Registry) (q : Invocation) :
    r.apply.run q = (r.applyWithin (r.levels q.operands)).run q := by
  simp only [Dispatcher.run, apply]

/-- The dispatcher stands for any number of levels that suffices. -/
theorem NestsWithin.run_apply (h : r.NestsWithin n q) (hn : n ≤ r.types.depth + 2) {m : Nat}
    (hm : n ≤ m) (self : Dispatcher) : (r.nestedIn self m).run q = r.apply.run q := by
  rw [run_apply_eq, applyWithin_eq_nestedIn]
  exact h.run_eq hm (Nat.le_trans hn (r.depth_add_two_le_levels q.operands)) _ _

theorem NestsWithin.nestsAtMost (h : r.NestsWithin n q) (hn : n ≤ r.types.depth + 2) :
    r.NestsAtMost n q := by
  refine ⟨fun qs => h.chain_le, fun self m hm => h.run_apply hn hm self, ?_⟩
  cases n with
  | zero => exact h.elim
  | succ n =>
    have hstep := h (r.nestedIn r.apply n) r.apply fun p hp =>
      hp.run_apply (by omega) (Nat.le_refl n) r.apply
    rw [← hstep]
    exact (h.run_apply hn (Nat.le_refl (n + 1)) r.apply).symm

end Registry

end ArrayDispatch
