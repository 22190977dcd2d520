import ArrayDispatch.Proofs.Shape.Count
import ArrayDispatch.Proofs.Value.Element
import ArrayDispatch.Proofs.Value.Storage
import ArrayDispatch.Types.Table

/-!
Instances of types. A payload belongs to a type if it has the layout and the extent of the type, and
so do the elements inside it; a tensor has as many elements as its shape, and their number can be
multiplied up.
-/

namespace ArrayDispatch

/-- A length that instances of a type can have. -/
def Extent.Admits : Extent → Nat → Prop
  | fixed n, m => m = n
  | dynamic, _ => True

theorem Extent.admits_getD (e : Extent) (n : Nat) : e.Admits (e.fixed?.getD n) := by
  cases e <;> trivial

theorem Extent.Admits.getD_eq {e : Extent} {n : Nat} (h : e.Admits n) : e.fixed?.getD n = n := by
  cases e with
  | fixed m => exact h.symm
  | dynamic => rfl

namespace Descriptor

def Holds : Descriptor → Payload → Prop
  | flat _ kind extent, .flat b => b.kind = kind ∧ extent.Admits b.length
  | nested _ element extent, .nested items =>
    (∀ v ∈ items, ∃ a, v = .array a ∧ a.type = element.key ∧ element.Holds a.payload) ∧
      extent.Admits items.length
  | tensor _ backing, .tensor a shape =>
    (a.type = backing.key ∧ backing.Holds a.payload) ∧
      a.length = Shape.size shape ∧ Shape.Fits shape
  | _, _ => False

def IsInstance (d : Descriptor) (v : Value) : Prop :=
  ∃ a, v = .array a ∧ a.type = d.key ∧ d.Holds a.payload

/-- What stands at a position of an instance; a tensor is not read by position. -/
def HasItem : Descriptor → Value → Prop
  | flat _ kind _, v => ∃ s, v = .scalar s ∧ s.kind = kind
  | nested _ element _, v => element.IsInstance v
  | tensor .., _ => False

def form : Descriptor → Form
  | flat _ kind _ => .flat kind
  | nested .. => .nested
  | tensor .. => .tensor

theorem isTensor_iff {d : Descriptor} : d.isTensor = true ↔ d.form = .tensor := by
  cases d <;> simp [isTensor, form]

theorem isInstance_array {d : Descriptor} {a : Object} :
    d.IsInstance (.array a) ↔ a.type = d.key ∧ d.Holds a.payload := by
  simp [IsInstance]

theorem IsInstance.type_eq {d : Descriptor} {a : Object} (h : d.IsInstance (.array a)) :
    a.type = d.key :=
  (isInstance_array.mp h).1

theorem IsInstance.holds {d : Descriptor} {a : Object} (h : d.IsInstance (.array a)) :
    d.Holds a.payload :=
  (isInstance_array.mp h).2

theorem IsInstance.type? {d : Descriptor} {v : Value} (h : d.IsInstance v) :
    v.type? = some d.key := by
  obtain ⟨a, rfl, ht, _⟩ := h
  simp [Value.type?, Value.object?, ht]

theorem isInstance_tensor {info : TypeInfo} {backing : Descriptor} {a : Object}
    {shape : List Nat} {site : Site} (ha : backing.IsInstance (.array a))
    (hn : Shape.count shape = .ok a.length) :
    (tensor info backing).IsInstance (.array ⟨site, info.key, .tensor a shape⟩) := by
  obtain ⟨hfits, hlen⟩ := Shape.count_eq_ok_iff.mp hn
  exact isInstance_array.mpr ⟨rfl, isInstance_array.mp ha, hlen, hfits⟩

section Holds

variable {d : Descriptor} {p : Payload}

theorem form_of_holds (h : d.Holds p) : p.form = d.form := by
  cases d <;> cases p <;> simp_all [Holds, form, Payload.form]

theorem IsInstance.form_eq {a : Object} (h : d.IsInstance (.array a)) : a.payload.form = d.form :=
  form_of_holds h.holds

theorem exists_of_holds_tensor {a : Object} {shape : List Nat} (h : d.Holds (.tensor a shape)) :
    ∃ info backing, d = .tensor info backing ∧ backing.IsInstance (.array a) ∧
      a.length = Shape.size shape ∧ Shape.Fits shape := by
  cases d with
  | flat info kind extent => exact h.elim
  | nested info element extent => exact h.elim
  | tensor info backing => exact ⟨info, backing, rfl, isInstance_array.mpr h.1, h.2⟩

theorem admits_of_holds (h : d.Holds p) : d.extent.Admits p.length := by
  cases d <;> cases p <;> simp_all [Holds, extent, Extent.Admits]

theorem IsInstance.admits {a : Object} (h : d.IsInstance (.array a)) : d.extent.Admits a.length :=
  admits_of_holds h.holds

/-- With the accessors of the payload, the length of a type is that of its instances. -/
theorem lengthOf_of_holds (ha : d.info.access = .stock) (h : d.Holds p) :
    d.lengthOf p = p.length := by
  have hn := admits_of_holds h
  unfold lengthOf
  split
  · rename_i n he
    rw [he] at hn
    exact hn.symm
  · rw [ha]
    rfl

theorem hasItem_of_holds (h : d.Holds p) {i : Nat} {v : Value} (hv : p.get? i = some v) :
    d.HasItem v := by
  cases d with
  | flat info kind extent =>
    cases p with
    | flat b =>
      obtain ⟨s, hs, rfl⟩ := Option.map_eq_some_iff.mp hv
      obtain ⟨x, _, rfl⟩ := Option.map_eq_some_iff.mp hs
      exact ⟨_, rfl, h.1⟩
    | nested items => exact h.elim
    | tensor a shape => exact h.elim
  | nested info element extent =>
    cases p with
    | flat b => exact h.elim
    | nested items => exact h.1 v (List.mem_of_getElem? hv)
    | tensor a shape => exact h.elim
  | tensor info backing =>
    cases p with
    | flat b => exact h.elim
    | nested items => exact h.elim
    | tensor a shape => cases hv

theorem IsInstance.hasItem {v u : Value} (h : d.IsInstance v) {i : Nat}
    (hu : v.element? i = some u) : d.HasItem u := by
  obtain ⟨a, rfl, _, hholds⟩ := h
  exact hasItem_of_holds hholds hu

theorem holds_of_items (hd : d.isTensor = false) (hf : p.form = d.form)
    (hn : d.extent.Admits p.length) (hi : ∀ i v, p.get? i = some v → d.HasItem v) :
    d.Holds p := by
  cases d with
  | flat info kind extent =>
    cases p with
    | flat b =>
      cases hf
      exact ⟨rfl, hn⟩
    | nested items => cases hf
    | tensor a shape => cases hf
  | nested info element extent =>
    cases p with
    | flat b => cases hf
    | nested items =>
      refine ⟨fun v hv => ?_, hn⟩
      obtain ⟨i, hv⟩ := List.getElem?_of_mem hv
      exact hi i v hv
    | tensor a shape => cases hf
  | tensor info backing => cases hd

/-! ### New storage -/

theorem form_alloc (site : Site) (n : Nat) : (d.alloc site n).form = d.form := by
  cases d <;> rfl

theorem length_alloc (hd : d.isTensor = false) (site : Site) (n : Nat) :
    (d.alloc site n).length = n := by
  cases d with
  | flat info kind extent => exact Buffer.length_zeros kind n
  | nested info element extent => exact List.length_replicate
  | tensor info backing => cases hd

end Holds

end Descriptor

namespace TypeTable

/-- A value is a scalar or an instance of the type registered under its key. -/
def WellFormed (t : TypeTable) : Value → Prop
  | .scalar _ => True
  | .array a => ∃ d, t.descriptor? a.type = some d ∧ d.IsInstance (.array a)

/-- A type that stands in the table under its key. -/
def Registered (t : TypeTable) (d : Descriptor) : Prop := t.descriptor? d.key = some d

variable {t : TypeTable} {d : Descriptor}

theorem WellFormed.of_isInstance (hd : t.Registered d) {v : Value} (h : d.IsInstance v) :
    t.WellFormed v := by
  obtain ⟨a, rfl, ht, hp⟩ := h
  exact ⟨d, by rw [ht]; exact hd, a, rfl, ht, hp⟩

theorem WellFormed.exists_isInstance {a : Object} (h : t.WellFormed (.array a)) :
    ∃ d, t.Registered d ∧ d.IsInstance (.array a) := by
  obtain ⟨d, hd, hi⟩ := h
  have ht := hi.type_eq
  exact ⟨d, by rw [Registered, ← ht]; exact hd, hi⟩

theorem descriptor_eq_ok_iff {key : TypeKey} :
    t.descriptor key = .ok d ↔ t.descriptor? key = some d := by
  unfold descriptor
  cases t.descriptor? key <;> simp [pure, Except.pure, throw, throwThe, MonadExceptOf.throw]

theorem descriptor_of_type_eq (hd : t.Registered d) {a : Object} (ha : a.type = d.key) :
    t.descriptor a.type = .ok d := by
  rw [descriptor_eq_ok_iff, ha]
  exact hd

end TypeTable

end ArrayDispatch
