import ArrayDispatch.Proofs.Dispatch.Tensor
import ArrayDispatch.Proofs.Types.Instance
import ArrayDispatch.Proofs.Value.Contents

/-!
Values of one layout, compared scalar by scalar. Arrays are compared position by position and
tensors entry by entry, so that the comparison passes from operands to what they contribute to a
call on elements or on backing arrays.
-/

namespace ArrayDispatch

namespace Value

/-- Arrays of one length, and what they contribute to each position. -/
structure Positionwise (R : Value → Value → Prop) (v w : Value) : Prop where
  length : ∃ n, v.length? = some n ∧ w.length? = some n
  element : ∀ i u u', v.element? i = some u → w.element? i = some u' → R u u'

/-- Tensors of one shape, and what they contribute to each multi-index. -/
structure Entrywise (R : Value → Value → Prop) (v w : Value) : Prop where
  shape : ∃ s, v.shape? = some s ∧ w.shape? = some s
  entry : ∀ index u u', v.entry? index = some u → w.entry? index = some u' → R u u'

end Value

namespace Descriptor

/-- Two elements of instances of a type, whose scalars at the same place satisfy `E`. -/
def ItemsRelated (E : Scalar → Scalar → Prop) : Descriptor → Value → Value → Prop
  | flat .., v, w => ∃ x y, v = .scalar x ∧ w = .scalar y ∧ E x y
  | nested _ element _, v, w => v.Positionwise (element.ItemsRelated E) w
  | tensor .., _, _ => False

/-- Two values with the layout of a type, whose scalars at the same place satisfy `E`. -/
def Related (E : Scalar → Scalar → Prop) : Descriptor → Value → Value → Prop
  | tensor _ backing, v, w => v.Entrywise (backing.ItemsRelated E) w
  | d, v, w => v.Positionwise (d.ItemsRelated E) w

variable {E : Scalar → Scalar → Prop} {d : Descriptor} {v w : Value}

theorem related_plain_iff (hp : d.isTensor = false) :
    d.Related E v w ↔ v.Positionwise (d.ItemsRelated E) w := by
  cases d with
  | flat info kind extent => exact Iff.rfl
  | nested info element extent => exact Iff.rfl
  | tensor info backing => cases hp

theorem itemsRelated_nested_iff {info : TypeInfo} {element : Descriptor} {extent : Extent}
    (hp : element.isTensor = false) :
    (nested info element extent).ItemsRelated E v w ↔ element.Related E v w :=
  (related_plain_iff hp).symm

end Descriptor

/-! ## Values of one content -/

namespace Value

variable {R : Value → Value → Prop} {v w : Value}

@[simp] theorem length?_contents (v : Value) : v.contents.length? = v.length? := by
  cases v with
  | scalar s => rfl
  | array a => simp [contents, length?]

@[simp] theorem element?_contents (v : Value) (i : Nat) :
    v.contents.element? i = (v.element? i).map contents := by
  cases v with
  | scalar s => rfl
  | array a => simp [contents, element?]

theorem tensor?_contents (v : Value) :
    v.contents.tensor? = v.tensor?.map fun p => (p.1.contents, p.2) := by
  obtain s | ⟨id, type, p⟩ := v
  · rfl
  · cases p <;> rfl

@[simp] theorem shape?_contents (v : Value) : v.contents.shape? = v.shape? := by
  rw [shape?, tensor?_contents, shape?]
  cases v.tensor? <;> rfl

@[simp] theorem entry?_contents (v : Value) (index : List Nat) :
    v.contents.entry? index = ( v.entry? index).map contents := by
  unfold entry?
  rw [tensor?_contents]
  cases v.tensor? with
  | none => rfl
  | some p => simp

theorem positionwise_of_contents (hw : w.contents = v.contents) (hv : ∃ n, v.length? = some n)
    (hR : ∀ i u u', v.element? i = some u → u'.contents = u.contents → R u u') :
    v.Positionwise R w := by
  constructor
  · obtain ⟨n, hn⟩ := hv
    exact ⟨n, hn, by rw [← w.length?_contents, hw, v.length?_contents, hn]⟩
  · intro i u u' hu hu'
    refine hR i u u' hu (Option.some.inj ?_)
    rw [← Option.map_some, ← hu', ← w.element?_contents, hw, v.element?_contents, hu,
      Option.map_some]

theorem entrywise_of_contents (hw : w.contents = v.contents) (hv : ∃ s, v.shape? = some s)
    (hR : ∀ index u u', v.entry? index = some u → u'.contents = u.contents → R u u') :
    v.Entrywise R w := by
  constructor
  · obtain ⟨s, hs⟩ := hv
    exact ⟨s, hs, by rw [← w.shape?_contents, hw, v.shape?_contents, hs]⟩
  · intro index u u' hu hu'
    refine hR index u u' hu (Option.some.inj ?_)
    rw [← Option.map_some, ← hu', ← w.entry?_contents, hw, v.entry?_contents, hu, Option.map_some]

end Value

namespace Descriptor

variable {E : Scalar → Scalar → Prop} {d : Descriptor} {v w : Value}

theorem IsInstance.exists_length? (h : d.IsInstance v) : ∃ n, v.length? = some n := by
  obtain ⟨a, rfl, _⟩ := h
  exact ⟨a.length, rfl⟩

theorem IsInstance.hasItem_of_entry? {info : TypeInfo} {backing : Descriptor}
    (h : (tensor info backing).IsInstance v) {index : List Nat} {u : Value}
    (hu : v.entry? index = some u) : backing.HasItem u := by
  obtain ⟨p, hp, hu⟩ := Option.bind_eq_some_iff.mp hu
  exact hasItem_of_holds (isInstance_of_tensor? h hp).1.holds hu

theorem itemsRelated_of_contents (hE : ∀ x : Scalar, x.kind = d.leafKind → E x x)
    (hv : d.HasItem v) (hw : w.contents = v.contents) : d.ItemsRelated E v w := by
  induction d generalizing v w with
  | flat info kind extent =>
    obtain ⟨x, rfl, hx⟩ := hv
    cases w with
    | scalar y =>
      cases hw
      exact ⟨x, x, rfl, rfl, hE x hx⟩
    | array a => cases hw
  | nested info element extent ih =>
    have hi : element.IsInstance v := hv
    exact Value.positionwise_of_contents hw hi.exists_length? fun i u u' hu hu' =>
      ih hE (hi.hasItem hu) hu'
  | tensor info backing => exact hv.elim

theorem related_of_contents (hE : ∀ x : Scalar, x.kind = d.leafKind → E x x)
    (hv : d.IsInstance v) (hw : w.contents = v.contents) : d.Related E v w := by
  by_cases hp : d.isTensor = false
  · exact (related_plain_iff hp).mpr <|
      Value.positionwise_of_contents hw hv.exists_length? fun i u u' hu hu' =>
        itemsRelated_of_contents hE (hv.hasItem hu) hu'
  · cases d with
    | tensor info backing =>
      obtain ⟨p, hp⟩ := exists_tensor? hv
      refine Value.entrywise_of_contents hw ⟨p.2, by rw [Value.shape?, hp]; rfl⟩
        fun index u u' hu hu' => ?_
      exact itemsRelated_of_contents hE (hv.hasItem_of_entry? hu) hu'
    | _ => exact absurd rfl hp

end Descriptor

/-! ## What related values contribute -/

theorem Value.exists_position {v u : Value} {n i : Nat} (hn : v.length? = some n)
    (hu : v.element? i = some u) :
    ∃ k, k < n ∧ ∀ w : Value, w.length? = some n → w.element? i = w.element? k := by
  cases v with
  | scalar s => cases hn
  | array a =>
    cases hn
    refine ⟨_, Payload.lt_length_of_get? hu, fun w hw => ?_⟩
    cases w with
    | scalar s => cases hw
    | array b =>
      have hlen : b.length = a.length := Option.some.inj hw
      rw [element?, element?, hlen]
      split <;> rfl

namespace Descriptor.Related

variable {E : Scalar → Scalar → Prop} {d : Descriptor} {v w : Value}

theorem length?_eq (h : d.Related E v w) (hp : d.isTensor = false) : w.length? = v.length? := by
  obtain ⟨n, hv, hw⟩ := ((related_plain_iff hp).mp h).length
  rw [hv, hw]

theorem scalars {info : TypeInfo} {kind : Kind} {extent : Extent}
    (h : (flat info kind extent).Related E v w) {i : Nat} {x y : Scalar}
    (hx : v.element? i = some (.scalar x)) (hy : w.element? i = some (.scalar y)) : E x y := by
  obtain ⟨x', y', hx', hy', hxy⟩ := h.element i _ _ hx hy
  cases hx'
  cases hy'
  exact hxy

theorem elements {info : TypeInfo} {element : Descriptor} {extent : Extent}
    (h : (nested info element extent).Related E v w) (hp : element.isTensor = false) {i : Nat}
    {u u' : Value} (hu : v.element? i = some u) (hu' : w.element? i = some u') :
    element.Related E u u' :=
  (itemsRelated_nested_iff hp).mp (h.element i u u' hu hu')

theorem shape?_eq {info : TypeInfo} {backing : Descriptor}
    (h : (tensor info backing).Related E v w) : w.shape? = v.shape? := by
  obtain ⟨s, hv, hw⟩ := h.shape
  rw [hv, hw]

/-- Backing arrays that are expanded to one shape. Each of their positions is that of a
multi-index. -/
theorem expanded {info : TypeInfo} {backing : Descriptor}
    (h : (tensor info backing).Related E v w) (hp : backing.isTensor = false) {dst : List Nat}
    (hpos : v.shape? = some [] → 0 < Shape.size dst) {a b : Value} (ha : v.Expanded dst a)
    (hb : w.Expanded dst b) : backing.Related E a b := by
  obtain ⟨s, hv, hw⟩ := h.shape
  have hlen := ha.length?_eq s hv
  have hlen' := hb.length?_eq s hw
  refine (related_plain_iff hp).mpr ⟨⟨_, hlen, hlen'⟩, fun i u u' hu hu' => ?_⟩
  obtain ⟨k, hk, hread⟩ := Value.exists_position hlen hu
  rw [hread a hlen] at hu
  rw [hread b hlen'] at hu'
  have hlt : k < Shape.size dst := by
    split at hk
    · rename_i hnil
      exact Nat.lt_of_lt_of_le hk (hpos (hnil ▸ hv))
    · exact hk
  obtain ⟨index, hi, rfl⟩ := Shape.exists_offset_eq hlt
  exact h.entry index u u' (ha.element?_eq index hi ▸ hu) (hb.element?_eq index hi ▸ hu')

end Descriptor.Related

end ArrayDispatch
