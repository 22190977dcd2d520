import ArrayDispatch.Proofs.Binary.Widening
import ArrayDispatch.Proofs.Scalar.Promotion
import ArrayDispatch.Proofs.Scalar.Word
import ArrayDispatch.Proofs.Value.Storage

/-!
Stored values and casts. A flat payload converts a scalar that is stored in it, and the conversion
is the one of a cast between all kinds. Between integer types it is a reduction modulo `2 ^ width`,
which a type that is as wide undoes.
-/

namespace ArrayDispatch

namespace Scalar

theorem store_eq_toElem (s : Scalar) (k : Kind) : s.store k = s.toElem k := by
  unfold toElem
  split
  · rename_i h
    subst h
    exact store_self s.kind s.elem
  · rfl

theorem cast_of_integer? {s : Scalar} {z : Int} (h : s.integer? = some z) (t : IntType) :
    s.cast (.integer t) = ⟨.integer t, t.ofInt z⟩ :=
  congrArg (Scalar.mk (.integer t)) (toElem_of_integer? h t)

theorem cast_cast_of_width_le {t u : IntType} (hw : t.width ≤ u.width) (x : t.Word) :
    (cast ⟨.integer t, x⟩ (.integer u)).cast (.integer t) = ⟨.integer t, x⟩ := by
  rw [cast_of_integer? (s := ⟨.integer t, x⟩) rfl, cast_of_integer? (s := ⟨.integer u, _⟩) rfl,
    IntType.ofInt_toInt_ofInt hw, t.ofInt_toInt]

end Scalar

namespace Form

theorem admit?_flat_scalar (k : Kind) (s : Scalar) :
    (flat k).admit? (.scalar s) = some (.scalar (s.cast k)) := by
  rw [admit?, s.store_eq_toElem]
  rfl

theorem admit?_eq_none_iff {f : Form} {v : Value} :
    f.admit? v = none ↔ f = .tensor ∨ (∃ k, f = .flat k) ∧ v.isArray = true := by
  cases f <;> cases v <;> simp [admit?, Value.isArray, Value.object?]

theorem admit?_eq_some_iff {f : Form} {v w : Value} :
    f.admit? v = some w ↔
      f = .nested ∧ w = v ∨ ∃ k s, f = .flat k ∧ v = .scalar s ∧ w = .scalar (s.cast k) := by
  cases f with
  | flat k =>
    cases v with
    | scalar s => simp [admit?_flat_scalar, eq_comm]
    | array a => simp [admit?]
  | nested => simp [admit?, eq_comm]
  | tensor => simp [admit?]

end Form

namespace Payload

variable (p : Payload) (i : Nat) (v : Value)

/-- What stands in place of the payload once `v` has been stored or refused. -/
def after : Payload := (p.set i v).toOption.getD p

variable {p i v}

theorem exists_set_eq_error_iff :
    (∃ w, p.set i v = .error w) ↔ p.length ≤ i ∨ p.form.admit? v = none := by
  constructor
  · rintro ⟨w, hw⟩
    by_cases hi : p.length ≤ i
    · exact .inl hi
    · cases hv : p.form.admit? v with
      | none => exact .inr rfl
      | some u =>
        obtain ⟨q, hq⟩ := exists_set_eq_ok (Nat.lt_of_not_le hi) hv
        rw [hw] at hq
        cases hq
  · intro h
    cases hset : p.set i v with
    | error w => exact ⟨w, rfl⟩
    | ok q =>
      obtain ⟨w, hw, hwritten⟩ := written_of_set_eq_ok hset
      rcases h with hi | hv
      · exact absurd hwritten.lt_length (Nat.not_lt_of_le hi)
      · rw [hv] at hw
        cases hw

/-- A store is refused out of range, by a tensor, and for an array by a flat payload; the value is
handed back and the payload stays. Otherwise the position holds the value itself, or its cast in a
flat payload, and nothing else changes. The casts of integers to an integer type are reductions
modulo `2 ^ width`, and a type that is as wide gives them back. -/
theorem set_refuses_or_casts (p : Payload) (i : Nat) (v : Value) :
    ((∃ w, p.set i v = .error w) ↔
      p.length ≤ i ∨ p.form = .tensor ∨ (∃ k, p.form = .flat k) ∧ v.isArray = true) ∧
    (∀ w, p.set i v = .error w → w = v ∧ p.after i v = p) ∧
    (∀ q, p.set i v = .ok q → p.after i v = q ∧ q.form = p.form ∧ q.length = p.length ∧
      (p.form = .nested ∧ q.get? i = some v ∨
        ∃ k s, p.form = .flat k ∧ v = .scalar s ∧ q.get? i = some (.scalar (s.cast k))) ∧
      ∀ j, j ≠ i → q.get? j = p.get? j) ∧
    (∀ (s : Scalar) (z : Int), s.integer? = some z → ∀ t : IntType,
      ∃ x, s.cast (.integer t) = ⟨.integer t, x⟩ ∧ t.Reduces z (t.toInt x)) ∧
    ∀ (t u : IntType) (x : t.Word), t.width ≤ u.width →
      (Scalar.cast ⟨.integer t, x⟩ (.integer u)).cast (.integer t) = ⟨.integer t, x⟩ := by
  refine ⟨?_, ?_, ?_, fun s z hs t => ⟨_, Scalar.cast_of_integer? hs t, t.reduces_ofInt z⟩,
    fun t u x hw => Scalar.cast_cast_of_width_le hw x⟩
  · rw [exists_set_eq_error_iff, Form.admit?_eq_none_iff]
  · intro w hw
    refine ⟨eq_of_set_eq_error hw, ?_⟩
    simp only [after, hw]
    rfl
  · intro q hq
    obtain ⟨w, hw, hwritten⟩ := written_of_set_eq_ok hq
    refine ⟨?_, hwritten.form_eq, hwritten.length_eq, ?_, hwritten.get?_ne⟩
    · simp only [after, hq]
      rfl
    · rw [hwritten.get?_self]
      rcases Form.admit?_eq_some_iff.mp hw with ⟨hf, rfl⟩ | ⟨k, s, hf, rfl, rfl⟩
      · exact .inl ⟨hf, rfl⟩
      · exact .inr ⟨k, s, hf, rfl, rfl⟩

/-- A negative integer of 64 bits stored among unsigned ones of 32 bits. -/
theorem set_refuses_or_casts_negative :
    let p := flat ⟨.integer .uint32, [0, 7]⟩
    let v := Value.scalar ⟨.integer .int64, -1⟩
    ∃ q, p.set 0 v = .ok q ∧ q.get? 0 = some (.scalar ⟨.integer .uint32, 0xffffffff⟩) ∧
      q.get? 1 = some (.scalar ⟨.integer .uint32, 7⟩) := by
  intro p v
  obtain ⟨_, _, hok, _⟩ := set_refuses_or_casts p 0 v
  have hset : p.set 0 v = .ok _ := set_flat (by decide) _
  obtain ⟨_, _, _, hkept, hrest⟩ := hok _ hset
  refine ⟨_, hset, ?_, hrest 1 (by decide)⟩
  rcases hkept with ⟨hf, _⟩ | ⟨k, s, hf, hv, hget⟩
  · cases hf
  · cases hf
    cases Value.scalar.inj hv
    exact hget

end Payload

end ArrayDispatch
