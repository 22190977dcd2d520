import ArrayDispatch.Proofs.Error.Bind
import ArrayDispatch.Proofs.Value.Element
import ArrayDispatch.Proofs.Value.Storage
import ArrayDispatch.Types.Kernel

/-!
What kernels make of flat payloads: payloads of one kind, with as many elements as the operands
agree on.
-/

namespace ArrayDispatch.Kernel

/-- The kernel takes payloads of kind `k` to payloads of kind `k'`, of the length on which the
operands agree. -/
def Maps (kernel : Kernel) (k k' : Kind) : Prop :=
  ∀ op slot ps q, (∀ p ∈ ps, p.form = .flat k) → kernel.run op slot ps = .ok q →
    q.form = .flat k' ∧ Reconciles (ps.map Payload.length) q.length

/-! ## Lengths -/

section Lengths

variable {α β γ : Type}

theorem reconciles_singleton (n : Nat) : Reconciles [n] n := by
  refine ⟨by simp, fun m hm => ?_, fun m hm => ?_⟩
  · exact Nat.le_of_eq (List.mem_singleton.mp hm)
  · exact .inr (List.mem_singleton.mp hm)

theorem reconciles_cons_cons {m n k l len : Nat} (h : Reconciles [m, n] l)
    (h' : Reconciles [l, k] len) : Reconciles [m, n, k] len := by
  obtain ⟨hmem, hle, hone⟩ := h
  obtain ⟨hmem', hle', hone'⟩ := h'
  simp only [List.mem_cons, List.not_mem_nil, or_false, forall_eq_or_imp, forall_eq] at *
  refine ⟨?_, ?_, ?_⟩ <;> simp only [List.mem_cons, List.not_mem_nil, or_false, forall_eq_or_imp,
    forall_eq] <;> omega

theorem length_stretch {n : Nat} {xs : List α} (h : xs.length = 1 ∨ xs.length = n) :
    (stretch n xs).length = n := by
  unfold stretch
  split
  · exact List.length_replicate
  · rename_i hne
    refine h.resolve_left fun hone => ?_
    obtain ⟨x, rfl⟩ := List.length_eq_one_iff.mp hone
    exact hne x rfl

theorem reconciles_of_zipMap {f : α → β → γ} {xs : List α} {ys : List β} {zs : List γ}
    (h : zipMap f xs ys = .ok zs) : Reconciles [xs.length, ys.length] zs.length := by
  unfold zipMap at h
  simp only [List.all_cons, List.all_nil, Bool.and_true, Bool.and_eq_true, Bool.or_eq_true,
    beq_iff_eq] at h
  split at h
  · rename_i hone
    cases h
    rw [List.length_zipWith, length_stretch hone.1, length_stretch hone.2]
    refine ⟨?_, ?_, ?_⟩ <;> simp only [List.mem_cons, List.not_mem_nil, or_false,
      forall_eq_or_imp, forall_eq] <;> omega
  · cases h

end Lengths

/-! ## Kernels by their number of operands -/

section Maps

variable {k k' : Kind}

theorem maps_unary {f : Payload → Attempt Payload}
    (h : ∀ a q, f (.flat a) = .ok q → a.kind = k →
      q.form = .flat k' ∧ q.length = a.length) : (unary f).Maps k k' := by
  intro op slot ps q hps hq
  match ps with
  | [a] =>
    obtain ⟨a, rfl, ha⟩ := Payload.form_eq_flat_iff.mp (hps a (by simp))
    obtain ⟨hform, hlen⟩ := h a q hq ha
    exact ⟨hform, hlen ▸ reconciles_singleton a.length⟩
  | [] | _ :: _ :: _ => cases hq

theorem maps_binary {f : Payload → Payload → Attempt Payload}
    (h : ∀ a b q, f (.flat a) (.flat b) = .ok q → a.kind = k → b.kind = k →
      q.form = .flat k' ∧ Reconciles [a.length, b.length] q.length) : (binary f).Maps k k' := by
  intro op slot ps q hps hq
  match ps with
  | [a, b] =>
    obtain ⟨a, rfl, ha⟩ := Payload.form_eq_flat_iff.mp (hps a (by simp))
    obtain ⟨b, rfl, hb⟩ := Payload.form_eq_flat_iff.mp (hps b (by simp))
    exact h a b q hq ha hb
  | [] | [_] | _ :: _ :: _ :: _ => cases hq

theorem maps_ternary {f : Payload → Payload → Payload → Attempt Payload}
    (h : ∀ a b c q, f (.flat a) (.flat b) (.flat c) = .ok q → a.kind = k → b.kind = k →
      c.kind = k → q.form = .flat k' ∧ Reconciles [a.length, b.length, c.length] q.length) :
    (ternary f).Maps k k' := by
  intro op slot ps q hps hq
  match ps with
  | [a, b, c] =>
    obtain ⟨a, rfl, ha⟩ := Payload.form_eq_flat_iff.mp (hps a (by simp))
    obtain ⟨b, rfl, hb⟩ := Payload.form_eq_flat_iff.mp (hps b (by simp))
    obtain ⟨c, rfl, hc⟩ := Payload.form_eq_flat_iff.mp (hps c (by simp))
    exact h a b c q hq ha hb hc
  | [] | [_] | [_, _] | _ :: _ :: _ :: _ :: _ => cases hq

theorem maps_compare {f : Comparison → Payload → Payload → Attempt Payload}
    (h : ∀ cmp, (binary (f cmp)).Maps k k') : (compare f).Maps k k' := by
  intro op slot ps q hps hq
  match ps, slot with
  | [a, b], .compare cmp => exact h cmp op (.compare cmp) [a, b] q hps hq
  | [a, b], .method | [a, b], .function _ | [], _ | [_], _ | _ :: _ :: _ :: _, _ => cases hq

end Maps

/-! ## The stock kernels -/

section Stock

variable (format : Format)

theorem maps_floatUnary (name : String) (f : {p : Format} → Binary p → Binary p) :
    (unary (floatUnary name f)).Maps (.float format) (.float format) := by
  refine maps_unary fun a q hq ha => ?_
  obtain ⟨kind, xs⟩ := a
  cases ha
  cases hq
  exact ⟨rfl, List.length_map _⟩

theorem maps_floatBinary (name : String) (f : {p : Format} → Binary p → Binary p → Binary p) :
    (binary (floatBinary name f)).Maps (.float format) (.float format) := by
  refine maps_binary fun a b q hq ha hb => ?_
  obtain ⟨ka, xs⟩ := a
  obtain ⟨kb, ys⟩ := b
  cases ha
  cases hb
  cases format <;>
  · obtain ⟨zs, hzs, rfl⟩ := map_eq_ok_iff.mp hq
    exact ⟨rfl, reconciles_of_zipMap hzs⟩

theorem maps_boolBinary (name : String) (f : Bool → Bool → Bool) :
    (binary (boolBinary name f)).Maps .bool .bool := by
  refine maps_binary fun a b q hq ha hb => ?_
  obtain ⟨ka, xs⟩ := a
  obtain ⟨kb, ys⟩ := b
  cases ha
  cases hb
  obtain ⟨zs, hzs, rfl⟩ := map_eq_ok_iff.mp hq
  exact ⟨rfl, reconciles_of_zipMap hzs⟩

theorem maps_floatFma : fma.Maps (.float format) (.float format) := by
  refine maps_ternary fun a b c q hq ha hb hc => ?_
  obtain ⟨ka, xs⟩ := a
  obtain ⟨kb, ys⟩ := b
  obtain ⟨kc, zs⟩ := c
  cases ha
  cases hb
  cases hc
  cases format <;>
  · obtain ⟨pairs, hpairs, hq⟩ := bind_eq_ok_iff.mp hq
    obtain ⟨sums, hsums, hq⟩ := bind_eq_ok_iff.mp hq
    cases hq
    exact ⟨rfl, reconciles_cons_cons (reconciles_of_zipMap hpairs) (reconciles_of_zipMap hsums)⟩

theorem maps_richCompare : richCompare.Maps (.float format) .bool := by
  refine maps_compare fun cmp => maps_binary fun a b q hq ha hb => ?_
  obtain ⟨ka, xs⟩ := a
  obtain ⟨kb, ys⟩ := b
  cases ha
  cases hb
  cases format <;>
  · obtain ⟨zs, hzs, rfl⟩ := map_eq_ok_iff.mp hq
    exact ⟨rfl, reconciles_of_zipMap hzs⟩

theorem maps_mulPair : mulPair.Maps (.float .single) (.float .single) := by
  refine maps_binary fun a b q hq ha hb => ?_
  obtain ⟨ka, xs⟩ := a
  obtain ⟨kb, ys⟩ := b
  cases ha
  cases hb
  match xs, ys with
  | [_, _], [_, _] =>
    cases hq
    have hlen : Reconciles [2, 2] 2 := ⟨by simp, by simp, by simp⟩
    exact ⟨rfl, hlen⟩
  | [], _ | [_], _ | _ :: _ :: _ :: _, _ => cases hq
  | [_, _], [] | [_, _], [_] | [_, _], _ :: _ :: _ :: _ => cases hq

end Stock

end ArrayDispatch.Kernel
