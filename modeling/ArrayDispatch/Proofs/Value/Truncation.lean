import ArrayDispatch.Proofs.Binary.Value
import ArrayDispatch.Proofs.Scalar.Word
import ArrayDispatch.Value.Basic

/-!
Floats as elements of integer types, cast on their own or stored in a flat payload. A type of 64
bits drops the fraction and holds the rest within its range. A type of 32 bits cuts the word of 64
bits that is found in this way, so a value out of its own range wraps around.
-/

namespace ArrayDispatch

namespace IntType

/-- The integer part of a value, or the end of the range that is nearest to it. An undefined value
gives zero. -/
def saturate (t : IntType) : Option Extended → Int
  | none => 0
  | some ⊥ => t.low
  | some ⊤ => t.high
  | some (q : ℚ) => max t.low (min t.high (integerPart q))

/-- The type holds what the type of 64 bits and of its signedness makes of the value. -/
def Reaches (t : IntType) (v : Option Extended) : Prop :=
  t.width = 64 ∨ t.Holds (t.widest.saturate v)

variable (t : IntType) (v : Option Extended)

theorem low_nonpos_high_nonneg : t.low ≤ 0 ∧ 0 ≤ t.high := by
  cases t <;> decide

theorem widest_range : t.widest.low ≤ t.low ∧ t.high ≤ t.widest.high := by
  cases t <;> decide

theorem holds_saturate : t.Holds (t.saturate v) := by
  have hzero := t.low_nonpos_high_nonneg
  unfold Holds
  rcases v with _ | _ | _ | q <;> simp only [saturate] <;> omega

theorem saturate_mono {p q : Extended} (h : p ≤ q) :
    t.saturate (some p) ≤ t.saturate (some q) := by
  rcases p with _ | _ | p
  · exact (t.holds_saturate (some q)).1
  · rw [top_le_iff.mp h]
    rfl
  · rcases q with _ | _ | q
    · exact absurd h (WithBot.not_coe_le_bot _)
    · exact (t.holds_saturate (some (.rational p))).2
    · have hpq : p ≤ q := WithTop.coe_le_coe.mp (WithBot.coe_le_coe.mp h)
      have hpart := integerPart_mono hpq
      change max t.low (min t.high (integerPart p)) ≤ max t.low (min t.high (integerPart q))
      omega

variable {t v}

/-- Where the type of 64 bits stays in the range, it makes the same of the value. -/
theorem Reaches.saturate_eq (h : t.Reaches v) : t.widest.saturate v = t.saturate v := by
  rcases h with h | h
  · have hwidest : t.widest = t := by
      cases t <;> first | rfl | cases h
    rw [hwidest]
  · have hrange := t.widest_range
    have hzero := t.low_nonpos_high_nonneg
    unfold Holds at h
    rcases v with _ | _ | _ | q <;> simp only [saturate] at * <;> omega

end IntType

theorem Binary.clampInt_eq {f : Format} (x : Binary f) (t : IntType) :
    x.clampInt t.low t.high = t.saturate x.value? := by
  unfold clampInt value?
  cases x.exact with
  | nan => rfl
  | infinite neg => cases neg <;> rfl
  | finite neg m e =>
    change max t.low (min t.high (Exact.truncate neg m e)) = max _ (min _ (integerPart _))
    rw [Exact.truncate_eq]

namespace Scalar

/-- The scalar becomes the word `w` of an integer type, cast on its own or stored at any position of
a flat payload of that type. -/
structure Becomes (s : Scalar) (t : IntType) (w : t.Word) : Prop where
  cast : s.cast (.integer t) = ⟨.integer t, w⟩
  set : ∀ {b : Buffer} {i : Nat}, b.kind = .integer t → i < b.length →
    ∃ p, (Payload.flat b).set i (.scalar s) = .ok p ∧
      p.get? i = some (.scalar ⟨.integer t, w⟩)

theorem Becomes.unique {s : Scalar} {t : IntType} {w w' : t.Word} (h : s.Becomes t w)
    (h' : s.Becomes t w') : w = w' := by
  have hcast := h.cast.symm.trans h'.cast
  injection hcast

/-- A scalar of another kind is converted in the same way on both paths. -/
theorem becomes_store {s : Scalar} {t : IntType} (h : s.kind ≠ .integer t) :
    s.Becomes t (s.store (.integer t)) where
  cast := by
    unfold cast toElem
    rw [dif_neg h]
  set := by
    rintro ⟨k, elems⟩ i rfl hi
    refine ⟨_, Payload.set_flat hi s, ?_⟩
    exact congrArg (Option.map Value.scalar) (Buffer.get?_set_self hi s)

/-- The word of 64 bits that a float is cut from stands for what its value saturates to. -/
theorem store_float {f : Format} (x : Binary f) (t : IntType) :
    store ⟨.float f, x⟩ (.integer t) = t.ofInt (t.widest.saturate x.value?) := by
  change t.ofInt (t.widest.toInt (t.widest.ofInt (x.clampInt t.widest.low t.widest.high))) = _
  rw [x.clampInt_eq t.widest, IntType.toInt_ofInt (t.widest.holds_saturate _)]

theorem float_becomes {f : Format} (x : Binary f) (t : IntType) :
    Becomes ⟨.float f, x⟩ t (t.ofInt (t.widest.saturate x.value?)) := by
  rw [← store_float]
  exact becomes_store (by rintro ⟨⟩)

/-- A float becomes the integer part of its value, held within the range of the type, exactly if the
type of 64 bits and of its signedness makes the same integer of it modulo `2 ^ width`. So it is for
the types of 64 bits themselves and for what a narrower type holds, and there a greater float
becomes no less. -/
theorem float_becomes_truncated {f : Format} (x : Binary f) (t : IntType) :
    ∃ w, Becomes ⟨.float f, x⟩ t w ∧
      t.Reduces (t.widest.saturate x.value?) (t.toInt w) ∧
      (t.toInt w = t.saturate x.value? ↔
        t.saturate x.value? ≡ t.widest.saturate x.value? [ZMOD 2 ^ t.width]) ∧
      (t.Reaches x.value? → t.toInt w = t.saturate x.value? ∧
        ∀ {g : Format} (y : Binary g) {w' : t.Word} {p q : Extended},
          Becomes ⟨.float g, y⟩ t w' → t.Reaches y.value? →
          x.value? = some p → y.value? = some q → p ≤ q → t.toInt w ≤ t.toInt w') := by
  have hreduces (v : Option Extended) := t.reduces_ofInt (t.widest.saturate v)
  have hreaches {v : Option Extended} (h : t.Reaches v) :
      t.toInt (t.ofInt (t.widest.saturate v)) = t.saturate v := by
    rw [h.saturate_eq, IntType.toInt_ofInt (t.holds_saturate v)]
  refine ⟨_, float_becomes x t, hreduces _, ⟨?_, ?_⟩, fun hx => ⟨hreaches hx, ?_⟩⟩
  · intro heq
    rw [← heq]
    exact (hreduces _).modEq
  · intro hmod
    exact (hreduces _).unique ⟨t.holds_saturate _, hmod⟩
  · intro g y w' p q hw' hy hp hq hpq
    rw [hw'.unique (float_becomes y t), hreaches hx, hreaches hy, hp, hq]
    exact t.saturate_mono hpq

/-- A negative number loses what follows its point, and an infinity above it becomes no less. -/
theorem float_becomes_truncated_fraction :
    let x : Binary .single := .ofMagnitude true 0x40700000
    let y : Binary .double := .infinite false
    x.value? = some (.rational (-15 / 4)) ∧
      ∃ v w, Becomes ⟨.float .single, x⟩ .int64 v ∧ Becomes ⟨.float .double, y⟩ .int64 w ∧
        IntType.int64.toInt v = -3 ∧ IntType.int64.toInt v ≤ IntType.int64.toInt w := by
  intro x y
  have hx : x.value? = some (.rational (-15 / 4)) := by
    change (Exact.finite true 15728640 (-22)).value? = _
    norm_num [Exact.value?, Exact.signed]
  have hy : y.value? = some ⊤ := rfl
  obtain ⟨v, hv, _, _, hright⟩ := float_becomes_truncated x .int64
  obtain ⟨w, hw, _⟩ := float_becomes_truncated y .int64
  obtain ⟨heq, hmono⟩ := hright (.inl rfl)
  refine ⟨hx, v, w, hv, hw, ?_, hmono y hw (.inl rfl) hx hy le_top⟩
  have hpart : integerPart (-15 / 4) = -3 := by norm_num [integerPart]
  rw [heq, hx]
  change max _ (min _ (integerPart (-15 / 4))) = _
  rw [hpart]
  rfl

/-- In single precision, `2 ^ 31` becomes the least signed integer of 32 bits and not the greatest,
and the lesser float one becomes a greater integer. -/
theorem float_becomes_wrapped :
    let x : Binary .single := .ofMagnitude false 0x4f000000
    let y : Binary .single := .ofMagnitude false 0x3f800000
    x.value? = some (.rational (2 ^ 31)) ∧ y.value? = some (.rational 1) ∧
      IntType.int32.saturate x.value? = 2 ^ 31 - 1 ∧
      ∃ v w, Becomes ⟨.float .single, x⟩ .int32 v ∧ Becomes ⟨.float .single, y⟩ .int32 w ∧
        IntType.int32.toInt v = -2 ^ 31 ∧ IntType.int32.toInt w = 1 := by
  intro x y
  have hx : x.value? = some (.rational (2 ^ 31)) := by
    change (Exact.finite false (2 ^ 23) 8).value? = _
    norm_num [Exact.value?, Exact.signed]
  have hy : y.value? = some (.rational 1) := by
    change (Exact.finite false (2 ^ 23) (-23)).value? = _
    norm_num [Exact.value?, Exact.signed]
  refine ⟨hx, hy, ?_, _, _, float_becomes x .int32, float_becomes y .int32, ?_, ?_⟩
  · rw [← x.clampInt_eq]
    rfl
  · rw [← x.clampInt_eq]
    decide
  · rw [← y.clampInt_eq]
    decide

end Scalar

end ArrayDispatch
