import ArrayDispatch.Proofs.Value.Storage
import ArrayDispatch.Value.Equality

/-!
Contents of values: what is left of a value when all its arrays have one identity. Lengths, types
and elements of a value are those of its contents, and storing goes by contents.
-/

namespace ArrayDispatch

mutual

/-- The value with one identity for all its arrays, which leaves types and contents. -/
def Value.contents : Value → Value
  | .scalar s => .scalar s
  | .array a => .array a.contents

def Object.contents : Object → Object
  | ⟨_, type, p⟩ => ⟨default, type, p.contents⟩

def Payload.contents : Payload → Payload
  | .flat b => .flat b
  | .nested items => .nested (Value.contentsOf items)
  | .tensor backing shape => .tensor backing.contents shape

def Value.contentsOf : List Value → List Value
  | [] => []
  | v :: vs => v.contents :: Value.contentsOf vs

end

theorem Value.contentsOf_eq_map (vs : List Value) : Value.contentsOf vs = vs.map contents := by
  induction vs with
  | nil => rfl
  | cons v vs ih => rw [contentsOf, ih, List.map_cons]

/-! ### Equality looks at the contents only -/

mutual

theorem Value.contents_equals : ∀ v w : Value, v.contents.equals w = v.equals w
  | .scalar _, _ => rfl
  | .array _, .scalar _ => by simp only [Value.contents, Value.equals]
  | .array a, .array b => by rw [Value.contents, Value.equals, Value.equals, a.contents_equals]

theorem Object.contents_equals : ∀ a b : Object, a.contents.equals b = a.equals b
  | ⟨_, _, p⟩, ⟨_, _, q⟩ => by rw [Object.contents, Object.equals, Object.equals, p.contents_equals]

theorem Payload.contents_equals : ∀ p q : Payload, p.contents.equals q = p.equals q
  | .flat _, _ => rfl
  | .nested xs, q => by
    cases q with
    | nested ys =>
      rw [Payload.contents, Payload.equals, Payload.equals, Value.contentsOf_allEqual]
    | _ => simp only [Payload.contents, Payload.equals]
  | .tensor a _, q => by
    cases q with
    | tensor b _ => rw [Payload.contents, Payload.equals, Payload.equals, a.contents_equals]
    | _ => simp only [Payload.contents, Payload.equals]

theorem Value.contentsOf_allEqual :
    ∀ vs ws : List Value, Value.allEqual (Value.contentsOf vs) ws = Value.allEqual vs ws
  | [], _ => rfl
  | _ :: _, [] => by simp only [Value.contentsOf, Value.allEqual]
  | v :: vs, w :: ws => by
    rw [Value.contentsOf, Value.allEqual, Value.allEqual, v.contents_equals,
      Value.contentsOf_allEqual]

end

/-! ### Reading and storing -/

namespace Object

variable (a : Object)

@[simp] theorem type_contents : a.contents.type = a.type := by
  obtain ⟨id, type, p⟩ := a
  rfl

@[simp] theorem payload_contents : a.contents.payload = a.payload.contents := by
  obtain ⟨id, type, p⟩ := a
  rfl

end Object

namespace Payload

variable (p : Payload)

@[simp] theorem contents_nested (items : List Value) :
    (nested items).contents = nested (items.map Value.contents) := by
  rw [contents, Value.contentsOf_eq_map]

@[simp] theorem length_contents : ∀ p : Payload, p.contents.length = p.length
  | flat b => rfl
  | nested items => by simp
  | tensor ⟨id, type, p⟩ shape => length_contents p

@[simp] theorem get?_contents (i : Nat) : p.contents.get? i = (p.get? i).map Value.contents := by
  cases p with
  | flat b =>
    cases h : b.get? i <;> simp [contents, get?, h, Value.contents]
  | nested items => simp [get?]
  | tensor backing shape => rfl

@[simp] theorem form_contents : p.contents.form = p.form := by
  cases p <;> rfl

/-- Payloads have the same contents if their elements do; tensors are not read by position. -/
theorem contents_eq_of_get? {p q : Payload} (hf : p.form = q.form) (ht : p.form ≠ .tensor)
    (hl : p.length = q.length)
    (h : ∀ i, i < p.length → (p.get? i).map Value.contents = (q.get? i).map Value.contents) :
    p.contents = q.contents := by
  refine eq_of_get?_eq (by simpa using hf) (by simpa using ht) (by simpa using hl) fun i hi => ?_
  simpa using h i (by simpa using hi)

theorem set_flat_array (b : Buffer) (i : Nat) (a : Object) :
    (flat b).set i (.array a) = .error (.array a) := by
  unfold set
  split <;> rfl

theorem set_tensor (a : Object) (shape : List Nat) (i : Nat) (v : Value) :
    (tensor a shape).set i v = .error v := by
  unfold set
  split
  · rfl
  · cases v <;> rfl

theorem set_contents (i : Nat) (v : Value) :
    p.contents.set i v.contents =
      match p.set i v with
      | .ok q => .ok q.contents
      | .error w => .error w.contents := by
  by_cases hi : i < p.length
  · cases p with
    | flat b =>
      cases v with
      | scalar s =>
        rw [set_flat hi]
        exact set_flat hi s
      | array a => simp only [contents, Value.contents, set_flat_array]
    | nested items =>
      rw [set_nested hi, contents_nested, set_nested (by simpa using hi)]
      simp
    | tensor backing shape => rw [contents, set_tensor, set_tensor]
  · rw [set_of_length_le (Nat.le_of_not_lt hi),
      set_of_length_le (by simpa using Nat.le_of_not_lt hi)]

end Payload

theorem Object.contents_eq {a b : Object} (ht : a.type = b.type)
    (hp : a.payload.contents = b.payload.contents) : a.contents = b.contents := by
  obtain ⟨_, _, _⟩ := a
  obtain ⟨_, _, _⟩ := b
  cases ht
  exact congrArg (Object.mk default _) hp

@[simp] theorem Object.length_contents (a : Object) : a.contents.length = a.length := by
  simp [Object.length]

end ArrayDispatch
