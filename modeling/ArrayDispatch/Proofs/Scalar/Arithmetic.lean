import ArrayDispatch.Proofs.Scalar.Promotion
import ArrayDispatch.Proofs.Scalar.Word
import Mathlib.Data.List.Forall2

/-!
Integer arithmetic on scalars is exact modulo `2 ^ width` of the highest integer type among the
operands, whatever types they are promoted from.
-/

namespace ArrayDispatch

inductive Op.Exactly : Op → List Int → Int → Prop
  | neg (x : Int) : Exactly .neg [x] (-x)
  | abs (x : Int) : Exactly .abs [x] |x|
  | add (x y : Int) : Exactly .add [x, y] (x + y)
  | sub (x y : Int) : Exactly .sub [x, y] (x - y)
  | mul (x y : Int) : Exactly .mul [x, y] (x * y)
  | fma (x y z : Int) : Exactly .fma [x, y, z] (x * y + z)

namespace IntType

variable (t : IntType)

/-- Only the magnitude of the least signed word is out of range, and it wraps to that word. -/
theorem abs_eq (w : t.Word) : t.abs w = t.ofInt |t.toInt w| := by
  have hneg : t.ofInt (-t.toInt w) = -w := by rw [ofInt_neg, ofInt_toInt]
  unfold abs
  split
  · next h =>
    obtain ⟨hs, hmsb⟩ := Bool.and_eq_true_iff.mp h
    have hlt : t.toInt w < 0 := by
      simpa [toInt, hs] using BitVec.toInt_neg_of_msb_true hmsb
    rw [abs_of_neg hlt, hneg]
  · next h =>
    have hle : 0 ≤ t.toInt w := by
      unfold toInt
      split
      · next hs =>
        have hmsb : w.msb = false := by simpa [hs] using h
        exact BitVec.toInt_nonneg_of_msb_false hmsb
      · exact Int.natCast_nonneg _
    rw [abs_of_nonneg hle, ofInt_toInt]

theorem unary_exactly {op : Op} {w : t.Word} {z : Int} (h : op.Exactly [t.toInt w] z) :
    t.unary op w = .ok (t.ofInt z) := by
  cases h with
  | neg => rw [ofInt_neg, ofInt_toInt]; rfl
  | abs => rw [← abs_eq]; rfl

theorem binary_exactly {op : Op} {x y z : Int} (h : op.Exactly [x, y] z) :
    t.binary op (t.ofInt x) (t.ofInt y) = .ok (t.ofInt z) := by
  cases h with
  | add => rw [ofInt_add]; rfl
  | sub => rw [ofInt_sub]; rfl
  | mul => rw [ofInt_mul]; rfl

end IntType

namespace Scalar

variable {op : Op} {t : IntType} {z : Int}

/-! ## Evaluations by the number of operands -/

theorem eval_unary_exactly {s : Scalar} {x : Int} (hop : op.Exactly [x] z)
    (hs : s.integer? = some x) (ht : (Kind.integer t).HighestOf [s]) (slot : Slot) :
    eval op slot [s] = .ok ⟨.integer t, t.ofInt z⟩ := by
  obtain ⟨k, w⟩ := s
  cases (Kind.highestOf_singleton _).unique ht
  cases hs
  have heval : eval op slot [⟨.integer t, w⟩] = (t.unary op w).map (⟨.integer t, ·⟩) := by
    cases hop <;> rfl
  rw [heval, t.unary_exactly hop]
  rfl

theorem eval_binary_exactly {a b : Scalar} {x y : Int} (hop : op.Exactly [x, y] z)
    (ha : a.integer? = some x) (hb : b.integer? = some y)
    (ht : (Kind.integer t).HighestOf [a, b]) (slot : Slot) :
    eval op slot [a, b] = .ok ⟨.integer t, t.ofInt z⟩ := by
  have hne : op ≠ .truediv := by
    rintro rfl
    cases hop
  have heval : eval op slot [a, b] = binary op a b := by
    cases hop <;> rfl
  rw [heval, binary_of_promote hne ((Kind.highestOf_pair a b).unique ht),
    toElem_of_integer? ha, toElem_of_integer? hb]
  change (t.binary op (t.ofInt x) (t.ofInt y)).map _ = _
  rw [t.binary_exactly hop]
  rfl

theorem eval_fma_exactly {a b c : Scalar} {x y w : Int} (hop : op.Exactly [x, y, w] z)
    (ha : a.integer? = some x) (hb : b.integer? = some y) (hc : c.integer? = some w)
    (ht : (Kind.integer t).HighestOf [a, b, c]) (slot : Slot) :
    eval op slot [a, b, c] = .ok ⟨.integer t, t.ofInt z⟩ := by
  cases hop
  change fma a b c = _
  rw [fma_of_promote ((Kind.highestOf_triple a b c).unique ht), toElem_of_integer? ha,
    toElem_of_integer? hb, toElem_of_integer? hc, t.ofInt_add, t.ofInt_mul]
  rfl

theorem eval_exactly {ss : List Scalar} {zs : List Int} (hop : op.Exactly zs z)
    (hvalues : List.Forall₂ (fun s x => s.integer? = some x) ss zs)
    (ht : (Kind.integer t).HighestOf ss) (slot : Slot) :
    eval op slot ss = .ok ⟨.integer t, t.ofInt z⟩ := by
  cases hvalues with
  | nil => cases hop
  | cons ha hvalues =>
    cases hvalues with
    | nil => exact eval_unary_exactly hop ha ht slot
    | cons hb hvalues =>
      cases hvalues with
      | nil => exact eval_binary_exactly hop ha hb ht slot
      | cons hc hvalues =>
        cases hvalues with
        | nil => exact eval_fma_exactly hop ha hb hc ht slot
        | cons => cases hop

/-- Sums, differences, products, fused products, negation and magnitude of booleans and integers,
not all of them booleans, have the highest type among them and the exact value modulo the width of
that type. -/
theorem eval_exact_modulo {ss : List Scalar} {zs : List Int} (hop : op.Exactly zs z)
    (hvalues : List.Forall₂ (fun s x => s.integer? = some x) ss zs)
    (hbool : ∃ s ∈ ss, s.kind ≠ .bool) (slot : Slot) :
    ∃ t w, (Kind.integer t).HighestOf ss ∧ eval op slot ss = .ok ⟨.integer t, w⟩ ∧
      t.Reduces z (t.toInt w) := by
  have hfloat : ∀ s ∈ ss, s.kind.isFloat = false :=
    ((List.forall₂_and_left _ _).mp (hvalues.imp fun _ _ h => ⟨isFloat_of_integer? h, h⟩)).1
  obtain ⟨t, ht⟩ := Kind.exists_integer_highestOf hfloat hbool
  exact ⟨t, t.ofInt z, ht, eval_exactly hop hvalues ht slot, t.reduces_ofInt z⟩

/-- A negative number of 32 bits, times true, wraps around in the unsigned type of 64 bits that the
third operand brings. -/
theorem eval_exact_modulo_negative :
    let ss : List Scalar := [⟨.integer .int32, -5⟩, ⟨.bool, true⟩, ⟨.integer .uint64, 3⟩]
    Op.fma.Exactly [-5, 1, 3] (-2) ∧
      List.Forall₂ (fun s x => Scalar.integer? s = some x) ss [-5, 1, 3] ∧
      (∃ s ∈ ss, s.kind ≠ .bool) ∧
      ∃ w, eval .fma .method ss = .ok ⟨.integer .uint64, w⟩ ∧
        IntType.uint64.toInt w = 0xfffffffffffffffe := by
  intro ss
  have hop : Op.fma.Exactly [-5, 1, 3] (-2) := .fma (-5) 1 3
  have hvalues : List.Forall₂ (fun s x => Scalar.integer? s = some x) ss [-5, 1, 3] :=
    .cons rfl (.cons rfl (.cons rfl .nil))
  have hbool : ∃ s ∈ ss, s.kind ≠ .bool := ⟨_, List.mem_cons_self, by decide⟩
  obtain ⟨t, w, ht, heval, hw⟩ := eval_exact_modulo hop hvalues hbool .method
  cases (Kind.highestOf_triple _ _ _).unique ht
  exact ⟨hop, hvalues, hbool, w, heval, hw.unique ⟨by decide, by decide⟩⟩

end Scalar

end ArrayDispatch
