import ArrayDispatch.Proofs.Binary.Widening
import ArrayDispatch.Proofs.Types.Kernel

/-!
What the stock kernels compute: at every position the value to which the scalars of the operands
evaluate, as a buffer of the result kind stores it.
-/

namespace ArrayDispatch.Kernel

/-- The scalars that flat payloads contribute to position `i`; a single one is repeated. -/
def Contributes (ps : List Payload) (i : Nat) (ss : List Scalar) : Prop :=
  List.Forall₂ (fun p s => p.get? (if p.length = 1 then 0 else i) = some (.scalar s)) ps ss

/-- What a kernel makes of payloads whose scalars are to be evaluated: it refuses lengths that do
not agree, and otherwise stores the values at all positions. -/
def Evaluated (op : Op) (slot : Slot) (k' : Kind) (ps : List Payload) : Attempt Payload → Prop
  | .error cause =>
    (∃ lens, cause = .sizes lens) ∧ ∀ n, ¬Reconciles (ps.map Payload.length) n
  | .ok q => ∃ b : Buffer, q = .flat b ∧ b.kind = k' ∧
      Reconciles (ps.map Payload.length) b.length ∧
      ∀ i ss, i < b.length → Contributes ps i ss →
        ∃ s, Scalar.eval op slot ss = .ok s ∧ b.get? i = some ⟨k', s.store k'⟩

/-- The kernel takes payloads of kind `k`, as many as the operation has operands, to the values of
their scalars in a payload of kind `k'`. Comparisons come with a selector. -/
def Evaluates (kernel : Kernel) (op : Op) (k k' : Kind) : Prop :=
  ∀ slot ps, ps.length = op.arity → (op = .richcmp → ∃ cmp, slot = .compare cmp) →
    (∀ p ∈ ps, p.form = .flat k) → Evaluated op slot k' ps (kernel.run op slot ps)

/-! ## Position by position -/

section ZipMap

variable {α β γ : Type}

theorem getElem?_stretch {n i : Nat} {xs : List α} (h : xs.length = 1 ∨ xs.length = n)
    (hi : i < n) : (stretch n xs)[i]? = xs[if xs.length = 1 then 0 else i]? := by
  by_cases hone : xs.length = 1
  · obtain ⟨x, rfl⟩ := List.length_eq_one_iff.mp hone
    simp [stretch, hi]
  · unfold stretch
    split
    · simp at hone
    · rw [if_neg hone]

theorem zipMap_cases (f : α → β → γ) (xs : List α) (ys : List β) :
    (zipMap f xs ys = .error (.sizes [xs.length, ys.length]) ∧
        ∀ n, ¬Reconciles [xs.length, ys.length] n) ∨
      ∃ zs, zipMap f xs ys = .ok zs ∧ Reconciles [xs.length, ys.length] zs.length ∧
        ∀ i x y, i < zs.length → xs[if xs.length = 1 then 0 else i]? = some x →
          ys[if ys.length = 1 then 0 else i]? = some y → zs[i]? = some (f x y) := by
  cases h : zipMap f xs ys with
  | error cause =>
    left
    unfold zipMap at h
    simp only [List.all_cons, List.all_nil, Bool.and_true, Bool.and_eq_true, Bool.or_eq_true,
      beq_iff_eq] at h
    split at h
    · cases h
    · rename_i hnot
      cases h
      refine ⟨rfl, fun n hr => hnot ?_⟩
      obtain ⟨hmem, hle, hone⟩ := hr
      simp only [List.mem_cons, List.not_mem_nil, or_false, forall_eq_or_imp, forall_eq] at *
      omega
  | ok zs =>
    right
    have hr := reconciles_of_zipMap h
    refine ⟨zs, rfl, hr, fun i x y hi hx hy => ?_⟩
    have hone := hr.one_or_eq
    simp only [List.mem_cons, List.not_mem_nil, or_false, forall_eq_or_imp, forall_eq] at hone
    have hmax : max xs.length ys.length = zs.length := by
      have hmem := hr.mem
      have hle := hr.le
      simp only [List.mem_cons, List.not_mem_nil, or_false, forall_eq_or_imp, forall_eq] at *
      omega
    unfold zipMap at h
    simp only [hmax] at h
    split at h
    · have hzs : List.zipWith f (stretch zs.length xs) (stretch zs.length ys) = zs :=
        Except.ok.inj h
      have hget : (List.zipWith f (stretch zs.length xs) (stretch zs.length ys))[i]? =
          some (f x y) := by
        rw [List.getElem?_zipWith, getElem?_stretch hone.1 hi, getElem?_stretch hone.2 hi, hx, hy]
      rwa [hzs] at hget
    · cases h

theorem exists_reconciles_of_three {m n k len : Nat} (h : Reconciles [m, n, k] len) :
    ∃ l, Reconciles [m, n] l ∧ Reconciles [l, k] len := by
  obtain ⟨hmem, hle, hone⟩ := h
  refine ⟨max m n, ⟨?_, ?_, ?_⟩, ⟨?_, ?_, ?_⟩⟩ <;>
  · simp only [List.mem_cons, List.not_mem_nil, or_false, forall_eq_or_imp, forall_eq] at *
    omega

end ZipMap

/-! ## Kernels by their number of operands -/

section Evaluates

variable {k k' : Kind} {op : Op} {slot : Slot}

theorem get?_flat_eq_some_iff {xs : List k.Elem} {j : Nat} {s : Scalar} :
    (Payload.flat ⟨k, xs⟩).get? j = some (.scalar s) ↔ ∃ x, xs[j]? = some x ∧ s = ⟨k, x⟩ := by
  cases h : xs[j]? with
  | none => simp [Payload.get?, Buffer.get?, h]
  | some x => simp [Payload.get?, Buffer.get?, h, eq_comm]

theorem get?_eq_store {zs : List k'.Elem} {i : Nat} {z : k'.Elem} (h : zs[i]? = some z) :
    Buffer.get? ⟨k', zs⟩ i = some ⟨k', Scalar.store ⟨k', z⟩ k'⟩ := by
  simp [Buffer.get?, h, Scalar.store_self]

theorem evaluated_unary {xs : List k.Elem} {g : k.Elem → k'.Elem}
    (heval : ∀ x, Scalar.eval op slot [⟨k, x⟩] = .ok ⟨k', g x⟩) :
    Evaluated op slot k' [.flat ⟨k, xs⟩] (.ok (.flat ⟨k', xs.map g⟩)) := by
  refine ⟨_, rfl, rfl, ?_, fun i ss hi hss => ?_⟩
  · have hlen : Buffer.length ⟨k', xs.map g⟩ = xs.length := List.length_map g
    rw [hlen]
    exact reconciles_singleton xs.length
  · match ss, hss with
    | [s], .cons hs .nil =>
      obtain ⟨x, hx, rfl⟩ := get?_flat_eq_some_iff.mp hs
      refine ⟨_, heval x, get?_eq_store ?_⟩
      have hi : i < xs.length := by simpa [Buffer.length] using hi
      have hj : (if xs.length = 1 then 0 else i) = i := by
        split <;> omega
      change xs[if xs.length = 1 then 0 else i]? = some x at hx
      rw [hj] at hx
      simp [hx]

theorem evaluated_binary {xs ys : List k.Elem} {g : k.Elem → k.Elem → k'.Elem}
    (heval : ∀ x y, Scalar.eval op slot [⟨k, x⟩, ⟨k, y⟩] = .ok ⟨k', g x y⟩) :
    Evaluated op slot k' [.flat ⟨k, xs⟩, .flat ⟨k, ys⟩]
      ((zipMap g xs ys).map fun zs => .flat ⟨k', zs⟩) := by
  rcases zipMap_cases g xs ys with ⟨hz, hnot⟩ | ⟨zs, hz, hr, hget⟩
  · rw [hz]
    exact ⟨⟨_, rfl⟩, hnot⟩
  · rw [hz]
    refine ⟨_, rfl, rfl, hr, fun i ss hi hss => ?_⟩
    match ss, hss with
    | [s, t], .cons hs (.cons ht .nil) =>
      obtain ⟨x, hx, rfl⟩ := get?_flat_eq_some_iff.mp hs
      obtain ⟨y, hy, rfl⟩ := get?_flat_eq_some_iff.mp ht
      exact ⟨_, heval x y, get?_eq_store (hget i x y hi hx hy)⟩

/-- Pairs are made first, and meet the third operand where they stand. -/
theorem evaluated_fma {p : Format} {xs ys zs : List (Binary p)}
    (heval : ∀ x y z, Scalar.eval op slot [⟨.float p, x⟩, ⟨.float p, y⟩, ⟨.float p, z⟩] =
      .ok ⟨.float p, x.fma y z⟩) :
    Evaluated op slot (.float p) [.flat ⟨.float p, xs⟩, .flat ⟨.float p, ys⟩, .flat ⟨.float p, zs⟩]
      (fmaOn xs ys zs) := by
  unfold fmaOn
  rcases zipMap_cases (fun x y => (x, y)) xs ys with ⟨hz, hnot⟩ | ⟨pairs, hz, hr, hpairs⟩
  · rw [hz]
    refine ⟨⟨_, rfl⟩, fun n hn => ?_⟩
    obtain ⟨l, hl, _⟩ := exists_reconciles_of_three hn
    exact hnot l hl
  · rw [hz]
    rcases zipMap_cases (fun (xy : Binary p × Binary p) z => xy.1.fma xy.2 z) pairs zs with
      ⟨hw, hnot⟩ | ⟨sums, hw, hr', hsums⟩
    · simp only [bind, Except.bind, hw]
      refine ⟨⟨_, rfl⟩, fun n hn => ?_⟩
      obtain ⟨l, hl, hl'⟩ := exists_reconciles_of_three hn
      rw [hl.unique hr] at hl'
      exact hnot n hl'
    · simp only [bind, Except.bind, hw]
      refine ⟨_, rfl, rfl, reconciles_cons_cons hr hr', fun i ss hi hss => ?_⟩
      match ss, hss with
      | [s, t, u], .cons hs (.cons ht (.cons hu .nil)) =>
        obtain ⟨x, hx, rfl⟩ := get?_flat_eq_some_iff.mp hs
        obtain ⟨y, hy, rfl⟩ := get?_flat_eq_some_iff.mp ht
        obtain ⟨z, hz, rfl⟩ := get?_flat_eq_some_iff.mp hu
        refine ⟨_, heval x y z, get?_eq_store (hsums i (x, y) z hi ?_ hz)⟩
        have hi : i < sums.length := hi
        have hone := hr.one_or_eq
        have hle := hr.le
        have hone' := hr'.one_or_eq
        have hle' := hr'.le
        simp only [List.mem_cons, List.not_mem_nil, or_false, forall_eq_or_imp, forall_eq] at *
        by_cases hp : pairs.length = 1
        · rw [if_pos hp]
          change xs[if xs.length = 1 then 0 else i]? = some x at hx
          change ys[if ys.length = 1 then 0 else i]? = some y at hy
          rw [if_pos (by omega)] at hx hy
          exact hpairs 0 x y (by omega) (by simpa using hx) (by simpa using hy)
        · rw [if_neg hp]
          exact hpairs i x y (by omega) hx hy

theorem evaluates_unary {f : Payload → Attempt Payload} (harity : op.arity = 1)
    (h : ∀ slot xs, Evaluated op slot k' [.flat ⟨k, xs⟩] (f (.flat ⟨k, xs⟩))) :
    (unary f).Evaluates op k k' := by
  intro slot ps hlen _ hps
  match ps with
  | [a] =>
    obtain ⟨⟨_, xs⟩, rfl, rfl⟩ := Payload.form_eq_flat_iff.mp (hps a (by simp))
    exact h slot xs
  | [] | _ :: _ :: _ => simp [harity] at hlen

theorem exists_two_flat {ps : List Payload} (hlen : ps.length = 2)
    (hps : ∀ p ∈ ps, p.form = .flat k) :
    ∃ xs ys, ps = [.flat ⟨k, xs⟩, .flat ⟨k, ys⟩] := by
  obtain ⟨a, b, rfl⟩ := List.length_eq_two.mp hlen
  obtain ⟨⟨_, xs⟩, rfl, hx⟩ := Payload.form_eq_flat_iff.mp (hps a (by simp))
  obtain ⟨⟨_, ys⟩, rfl, hy⟩ := Payload.form_eq_flat_iff.mp (hps b (by simp))
  cases hx
  cases hy
  exact ⟨xs, ys, rfl⟩

theorem evaluates_binary {f : Payload → Payload → Attempt Payload} (harity : op.arity = 2)
    (h : ∀ slot xs ys, Evaluated op slot k' [.flat ⟨k, xs⟩, .flat ⟨k, ys⟩]
      (f (.flat ⟨k, xs⟩) (.flat ⟨k, ys⟩))) :
    (binary f).Evaluates op k k' := by
  intro slot ps hlen _ hps
  obtain ⟨xs, ys, rfl⟩ := exists_two_flat (hlen.trans harity) hps
  exact h slot xs ys

theorem evaluates_ternary {f : Payload → Payload → Payload → Attempt Payload}
    (harity : op.arity = 3)
    (h : ∀ slot xs ys zs, Evaluated op slot k' [.flat ⟨k, xs⟩, .flat ⟨k, ys⟩, .flat ⟨k, zs⟩]
      (f (.flat ⟨k, xs⟩) (.flat ⟨k, ys⟩) (.flat ⟨k, zs⟩))) :
    (ternary f).Evaluates op k k' := by
  intro slot ps hlen _ hps
  match ps with
  | [a, b, c] =>
    obtain ⟨⟨_, xs⟩, rfl, rfl⟩ := Payload.form_eq_flat_iff.mp (hps a (by simp))
    obtain ⟨⟨_, ys⟩, rfl, hy⟩ := Payload.form_eq_flat_iff.mp (hps b (by simp))
    obtain ⟨⟨_, zs⟩, rfl, hz⟩ := Payload.form_eq_flat_iff.mp (hps c (by simp))
    cases hy
    cases hz
    exact h slot xs ys zs
  | [] | [_] | [_, _] | _ :: _ :: _ :: _ :: _ => simp [harity] at hlen

end Evaluates

/-! ## The stock kernels -/

section Stock

variable (format : Format) {op : Op}

theorem evaluates_floatUnary (name : String) {f : {p : Format} → Binary p → Binary p}
    (harity : op.arity = 1)
    (heval : ∀ slot (x : Binary format),
      Scalar.eval op slot [⟨.float format, x⟩] = .ok ⟨.float format, f x⟩) :
    (unary (floatUnary name f)).Evaluates op (.float format) (.float format) := by
  refine evaluates_unary harity fun slot xs => ?_
  exact evaluated_unary (heval slot)

theorem evaluates_floatBinary (name : String) {f : {p : Format} → Binary p → Binary p → Binary p}
    (harity : op.arity = 2)
    (heval : ∀ slot (x y : Binary format),
      Scalar.eval op slot [⟨.float format, x⟩, ⟨.float format, y⟩] = .ok ⟨.float format, f x y⟩) :
    (binary (floatBinary name f)).Evaluates op (.float format) (.float format) := by
  refine evaluates_binary harity fun slot xs ys => ?_
  cases format <;> exact evaluated_binary (heval slot)

theorem evaluates_boolBinary (name : String) {f : Bool → Bool → Bool} (harity : op.arity = 2)
    (heval : ∀ slot (x y : Bool), Scalar.eval op slot [⟨.bool, x⟩, ⟨.bool, y⟩] =
      .ok ⟨.bool, f x y⟩) :
    (binary (boolBinary name f)).Evaluates op .bool .bool :=
  evaluates_binary harity fun slot _ _ => evaluated_binary (heval slot)

theorem evaluates_fma : fma.Evaluates .fma (.float format) (.float format) := by
  refine evaluates_ternary rfl fun slot xs ys zs => ?_
  cases format <;> exact evaluated_fma fun x y z => rfl

theorem evaluates_richCompare : richCompare.Evaluates .richcmp (.float format) .bool := by
  intro slot ps hlen hslot hps
  obtain ⟨cmp, rfl⟩ := hslot rfl
  obtain ⟨xs, ys, rfl⟩ := exists_two_flat hlen hps
  cases format <;> exact evaluated_binary fun x y => rfl

end Stock

end ArrayDispatch.Kernel
