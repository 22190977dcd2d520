import ArrayDispatch.Value.Basic

/-!
Storage of values in payloads. The form of a payload decides what it makes of a value that is
stored; a write changes one position, and neither form nor length.
-/

namespace ArrayDispatch

/-- What a payload is made of: scalars of one kind, values, or an array read through a shape. -/
inductive Form where
  | flat (kind : Kind)
  | nested
  | tensor
deriving DecidableEq

/-- What a payload of this form keeps of a stored value, `none` if it refuses it. -/
def Form.admit? : Form → Value → Option Value
  | flat k, .scalar s => some (.scalar ⟨k, s.store k⟩)
  | nested, v => some v
  | _, _ => none

theorem Buffer.eq_of_get?_eq {a b : Buffer} (hk : a.kind = b.kind)
    (h : ∀ i, a.get? i = b.get? i) : a = b := by
  obtain ⟨k, xs⟩ := a
  obtain ⟨k', ys⟩ := b
  cases hk
  congr 1
  apply List.ext_getElem?
  intro i
  have hi := h i
  simp only [get?] at hi
  cases hx : xs[i]? <;> cases hy : ys[i]? <;> simp_all

namespace Payload

def form : Payload → Form
  | flat b => .flat b.kind
  | nested _ => .nested
  | tensor .. => .tensor

theorem form_eq_flat_iff {p : Payload} {k : Kind} :
    p.form = .flat k ↔ ∃ b, p = flat b ∧ b.kind = k := by
  cases p <;> simp [form]

/-! ## Reading -/

theorem lt_length_of_get? {p : Payload} {i : Nat} {v : Value} (h : p.get? i = some v) :
    i < p.length := by
  cases p with
  | flat b =>
    obtain ⟨s, hs, _⟩ := Option.map_eq_some_iff.mp h
    obtain ⟨x, hx, _⟩ := Option.map_eq_some_iff.mp hs
    exact (List.getElem?_eq_some_iff.mp hx).1
  | nested items => exact (List.getElem?_eq_some_iff.mp h).1
  | tensor backing shape => cases h

theorem exists_get? {p : Payload} {i : Nat} (hf : p.form ≠ .tensor) (h : i < p.length) :
    ∃ v, p.get? i = some v := by
  cases p with
  | flat b =>
    have hx : b.elems[i]? = some (b.elems.get ⟨i, h⟩) := List.getElem?_eq_getElem h
    exact ⟨.scalar ⟨b.kind, b.elems.get ⟨i, h⟩⟩, by simp [get?, Buffer.get?, hx]⟩
  | nested items => exact ⟨items.get ⟨i, h⟩, List.getElem?_eq_getElem h⟩
  | tensor backing shape => exact absurd rfl hf

theorem get?_of_length_le {p : Payload} {i : Nat} (h : p.length ≤ i) : p.get? i = none := by
  cases hv : p.get? i with
  | none => rfl
  | some v => exact absurd (lt_length_of_get? hv) (by omega)

/-- Payloads of one form and length with the same elements are equal; tensors are not read by
position. -/
theorem eq_of_get?_eq {p q : Payload} (hf : p.form = q.form) (ht : p.form ≠ .tensor)
    (hl : p.length = q.length) (h : ∀ i, i < p.length → p.get? i = q.get? i) : p = q := by
  have hall : ∀ i, p.get? i = q.get? i := by
    intro i
    by_cases hi : i < p.length
    · exact h i hi
    · rw [get?_of_length_le (by omega), get?_of_length_le (by omega)]
  cases p with
  | flat a =>
    cases q with
    | flat b => exact congrArg flat (Buffer.eq_of_get?_eq (by simpa [form] using hf) fun i => by
        simpa [get?, Option.map_inj_right] using hall i)
    | nested ys => cases hf
    | tensor b s => cases hf
  | nested xs =>
    cases q with
    | flat b => cases hf
    | nested ys => exact congrArg nested (List.ext_getElem? hall)
    | tensor b s => cases hf
  | tensor a s => exact absurd rfl ht

/-! ## Gathering -/

theorem exists_mapM_getElem? {α : Type} (xs : List α) {index : List Nat}
    (h : ∀ k ∈ index, k < xs.length) :
    ∃ ys : List α, index.mapM (xs[·]?) = some ys ∧ ys.length = index.length ∧
      ∀ i : Nat, ys[i]? = index[i]?.bind (xs[·]?) := by
  induction index with
  | nil => exact ⟨[], rfl, rfl, fun i => by simp⟩
  | cons k index ih =>
    obtain ⟨ys, hys, hlen, hget⟩ := ih fun j hj => h j (List.mem_cons_of_mem _ hj)
    have hlt : k < xs.length := h k (by simp)
    have hk : xs[k]? = some xs[k] := List.getElem?_eq_getElem hlt
    refine ⟨xs[k] :: ys, ?_, by simp [hlen], fun i => ?_⟩
    · rw [List.mapM_cons, hk, hys]
      rfl
    · cases i with
      | zero => simp
      | succ i => simpa using hget i

theorem exists_gather? {p : Payload} {index : List Nat} (hf : p.form ≠ .tensor)
    (h : ∀ k ∈ index, k < p.length) :
    ∃ q, p.gather? index = some q ∧ q.form = p.form ∧ q.length = index.length ∧
      ∀ i, q.get? i = index[i]?.bind p.get? := by
  cases p with
  | flat b =>
    obtain ⟨ys, hys, hlen, hget⟩ := exists_mapM_getElem? b.elems h
    refine ⟨.flat ⟨b.kind, ys⟩, by simp [gather?, Buffer.gather?, hys], rfl, hlen, fun i => ?_⟩
    simp only [get?, Buffer.get?, hget i]
    cases index[i]? <;> rfl
  | nested items =>
    obtain ⟨ys, hys, hlen, hget⟩ := exists_mapM_getElem? items h
    exact ⟨.nested ys, by simp [gather?, hys], rfl, hlen, hget⟩
  | tensor backing shape => exact absurd rfl hf

theorem mem_of_mapM_getElem? {α : Type} {xs ys : List α} {x : α} {index : List Nat}
    (h : index.mapM (xs[·]?) = some ys) (hx : x ∈ ys) : x ∈ xs := by
  induction index generalizing ys with
  | nil =>
    cases h
    cases hx
  | cons i index ih =>
    rw [List.mapM_cons] at h
    obtain ⟨y, hy, h⟩ := Option.bind_eq_some_iff.mp h
    obtain ⟨zs, hzs, h⟩ := Option.bind_eq_some_iff.mp h
    cases h
    rcases List.mem_cons.mp hx with rfl | hx
    · exact List.mem_of_getElem? hy
    · exact ih hzs hx

theorem of_gather? {p q : Payload} {index : List Nat} (h : p.gather? index = some q) :
    q.form = p.form ∧ ∀ i v, q.get? i = some v → ∃ j, p.get? j = some v := by
  cases p with
  | flat b =>
    obtain ⟨c, hc, rfl⟩ := Option.map_eq_some_iff.mp h
    obtain ⟨ys, hys, rfl⟩ := Option.map_eq_some_iff.mp hc
    refine ⟨rfl, fun i v hv => ?_⟩
    obtain ⟨s, hs, rfl⟩ := Option.map_eq_some_iff.mp hv
    obtain ⟨y, hy, rfl⟩ := Option.map_eq_some_iff.mp hs
    obtain ⟨j, hj⟩ := List.getElem?_of_mem (mem_of_mapM_getElem? hys (List.mem_of_getElem? hy))
    exact ⟨j, by simp [get?, Buffer.get?, hj]⟩
  | nested items =>
    obtain ⟨ys, hys, rfl⟩ := Option.map_eq_some_iff.mp h
    exact ⟨rfl, fun i v hv =>
      List.getElem?_of_mem (mem_of_mapM_getElem? hys (List.mem_of_getElem? hv))⟩
  | tensor backing shape => cases h

/-! ## Writing -/

/-- `q` is `p` with `w` at position `i`. -/
structure Written (p : Payload) (i : Nat) (w : Value) (q : Payload) : Prop where
  lt_length : i < p.length
  form_eq : q.form = p.form
  length_eq : q.length = p.length
  get?_self : q.get? i = some w
  get?_ne : ∀ j, j ≠ i → q.get? j = p.get? j

theorem written_of_set_eq_ok {p q : Payload} {i : Nat} {v : Value} (h : p.set i v = .ok q) :
    ∃ w, p.form.admit? v = some w ∧ p.Written i w q := by
  have hi : i < p.length := by
    refine Nat.lt_of_not_le fun hle => ?_
    rw [set_of_length_le hle] at h
    cases h
  cases p with
  | flat b =>
    cases v with
    | scalar s =>
      rw [set_flat hi] at h
      cases h
      refine ⟨_, rfl, hi, rfl, by simp, ?_, ?_⟩
      · simp only [get?, Buffer.get?_set_self hi, Option.map_some]
      · intro j hj
        simp only [get?, Buffer.get?_set_ne (Ne.symm hj)]
    | array a =>
      unfold set at h
      rw [if_neg (by omega)] at h
      cases h
  | nested items =>
    rw [set_nested hi] at h
    cases h
    refine ⟨v, rfl, hi, rfl, by simp, ?_, ?_⟩
    · exact List.getElem?_set_self hi
    · intro j hj
      exact List.getElem?_set_ne (Ne.symm hj)
  | tensor backing shape =>
    unfold set at h
    rw [if_neg (by omega)] at h
    cases h

theorem exists_set_eq_ok {p : Payload} {i : Nat} {v w : Value} (hi : i < p.length)
    (h : p.form.admit? v = some w) : ∃ q, p.set i v = .ok q := by
  cases p with
  | flat b =>
    cases v with
    | scalar s => exact ⟨_, set_flat hi s⟩
    | array a => cases h
  | nested items => exact ⟨_, set_nested hi v⟩
  | tensor backing shape => cases h

theorem set_eq_error_of_set_eq_error {p q : Payload} (hf : q.form = p.form)
    (hl : q.length = p.length) {i : Nat} {v u : Value} (h : p.set i v = .error u) :
    q.set i v = .error v := by
  cases hq : q.set i v with
  | error w => rw [eq_of_set_eq_error hq]
  | ok q' =>
    obtain ⟨w, hw, hwr⟩ := written_of_set_eq_ok hq
    have hlt : i < p.length := hl ▸ hwr.lt_length
    obtain ⟨p', hp'⟩ := exists_set_eq_ok hlt (hf ▸ hw)
    rw [h] at hp'
    cases hp'

end Payload

end ArrayDispatch
