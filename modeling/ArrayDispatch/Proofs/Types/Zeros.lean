import ArrayDispatch.Proofs.Types.Registration

/-!
Instances of which all scalars are zero. They are allocated by recursion on the type, and an empty
one is brought to its length after that; the result is the instance of that length.
-/

namespace ArrayDispatch

/-! ## Scalars at the bottom -/

mutual

/-- The scalars at the bottom of a value, in order. Those of a tensor are in its backing array. -/
def Value.bottom : Value → List Scalar
  | .scalar s => [s]
  | .array a => a.bottom

def Object.bottom : Object → List Scalar
  | ⟨_, _, p⟩ => p.bottom

def Payload.bottom : Payload → List Scalar
  | .flat b => b.toList
  | .nested items => Value.bottomOf items
  | .tensor backing _ => backing.bottom

def Value.bottomOf : List Value → List Scalar
  | [] => []
  | v :: vs => v.bottom ++ Value.bottomOf vs

end

theorem Value.bottomOf_eq_flatMap (vs : List Value) : Value.bottomOf vs = vs.flatMap bottom := by
  induction vs with
  | nil => rfl
  | cons v vs ih => rw [bottomOf, ih, List.flatMap_cons]

/-! ## New instances -/

theorem Buffer.resize_zeros (k : Kind) (n : ℕ) : (zeros k 0).resize n = zeros k n := by
  have helems : ([] : List k.Elem).take n ++ List.replicate (n - 0) k.zero =
      List.replicate n k.zero := by
    rw [List.take_nil, List.nil_append, Nat.sub_zero]
  exact congrArg (Buffer.mk k) helems

theorem Buffer.toList_zeros (k : Kind) (n : ℕ) :
    (zeros k n).toList = List.replicate n (.zero k) :=
  List.map_replicate

namespace Descriptor

/-- An instance with `n` elements on its top level and nothing but zeros at the bottom. -/
structure IsZeros (d : Descriptor) (n : ℕ) (a : Object) : Prop where
  isInstance : d.IsInstance (.array a)
  length_eq : a.length = n
  eq_zero : ∀ s ∈ a.bottom, s = .zero d.leafKind

theorem length_allocZero (d : Descriptor) (site : Site) (n : ℕ) :
    (d.allocZero site n).length = n := by
  induction d generalizing site with
  | flat info kind extent => exact Buffer.length_zeros kind n
  | nested info element extent _ =>
    rw [allocZero, Payload.length_nested, List.length_map, List.length_range]
  | tensor info backing ih =>
    rw [allocZero, Payload.length_tensor]
    exact ih (site.child 0)

theorem exists_allocZero_nested (info : TypeInfo) (element : Descriptor) (extent : Extent)
    (site : Site) (n : ℕ) :
    ∃ zs : List Value, zs.length = n ∧
      (nested info element extent).allocZero site n = .nested zs :=
  ⟨_, by rw [List.length_map, List.length_range], rfl⟩

theorem eq_zero_of_mem_allocZero (d : Descriptor) (site : Site) (n : ℕ) :
    ∀ s ∈ (d.allocZero site n).bottom, s = .zero d.leafKind := by
  induction d generalizing site n with
  | flat info kind extent =>
    intro s hs
    rw [allocZero, Payload.zeros, Payload.bottom, Buffer.toList_zeros] at hs
    exact List.eq_of_mem_replicate hs
  | nested info element extent ih =>
    intro s hs
    rw [allocZero, Payload.bottom, Value.bottomOf_eq_flatMap, List.mem_flatMap] at hs
    obtain ⟨v, hv, hs⟩ := hs
    obtain ⟨i, _, rfl⟩ := List.mem_map.mp hv
    exact ih _ _ s hs
  | tensor info backing ih => exact ih (site.child 0) n

/-- Resizing an empty instance comes to allocating one of the length asked for. -/
theorem zeroed_eq (d : Descriptor) (site : Site) (n : ℕ) :
    d.zeroed site n = ⟨site, d.key, d.allocZero site (d.extent.fixed?.getD n)⟩ := by
  cases d with
  | flat info kind extent =>
    cases extent with
    | fixed m => rfl
    | dynamic =>
      exact congrArg (fun b => Object.mk site info.key (.flat b)) (Buffer.resize_zeros kind n)
  | nested info element extent => cases extent <;> rfl
  | tensor info backing => rfl

end Descriptor

/-! ## Types whose instances have room -/

namespace Descriptor

/-- The backing arrays inside of a type can have any length. -/
def Elastic : Descriptor → Prop
  | flat .. => True
  | nested _ element _ => element.Elastic
  | tensor _ backing => backing.extent = .dynamic ∧ backing.Elastic

variable {d : Descriptor}

theorem Elastic.holds_allocZero (hd : d.Elastic) {n : ℕ} (hn : d.extent.Admits n) (site : Site) :
    d.Holds (d.allocZero site n) := by
  induction d generalizing n site with
  | flat info kind extent =>
    refine ⟨rfl, ?_⟩
    rw [Buffer.length_zeros]
    exact hn
  | nested info element extent ih =>
    refine ⟨fun v hv => ?_, ?_⟩
    · obtain ⟨i, _, rfl⟩ := List.mem_map.mp hv
      exact ⟨_, rfl, rfl, ih hd (Extent.admits_getD _ 0) _⟩
    · rw [List.length_map, List.length_range]
      exact hn
  | tensor info backing ih =>
    obtain ⟨hdynamic, hbacking⟩ := hd
    refine ⟨⟨rfl, ih hbacking (hdynamic ▸ trivial) _⟩, ?_, Shape.fits_singleton n⟩
    exact (backing.length_allocZero (site.child 0) n).trans (Shape.size_singleton n).symm

theorem Elastic.isZeros_allocZero (hd : d.Elastic) {n : ℕ} (hn : d.extent.Admits n)
    (id site : Site) : d.IsZeros n ⟨id, d.key, d.allocZero site n⟩ where
  isInstance := ⟨_, rfl, rfl, hd.holds_allocZero hn site⟩
  length_eq := d.length_allocZero site n
  eq_zero := d.eq_zero_of_mem_allocZero site n

/-- The array that goes with one of length `n` has the fixed extent of its type, or else that
length. -/
theorem Elastic.isZeros_zeroed (hd : d.Elastic) (site : Site) (n : ℕ) :
    d.IsZeros (d.extent.fixed?.getD n) (d.zeroed site n) := by
  rw [d.zeroed_eq]
  exact hd.isZeros_allocZero (Extent.admits_getD _ n) site site

theorem Elastic.isZeros_allocBacking (hd : d.Elastic) {site : Site} {shape : List ℕ} {a : Object}
    (h : d.allocBacking site shape = .ok a) :
    ∃ info backing, d = .tensor info backing ∧ backing.IsZeros (Shape.size shape) a := by
  cases d with
  | flat info kind extent => cases h
  | nested info element extent => cases h
  | tensor info backing =>
    obtain ⟨n, hn, rfl⟩ := map_eq_ok_iff.mp h
    obtain ⟨_, rfl⟩ := Shape.count_eq_ok_iff.mp hn
    obtain ⟨hdynamic, hbacking⟩ := hd
    exact ⟨info, backing, rfl, hbacking.isZeros_allocZero (hdynamic ▸ trivial) site site⟩

end Descriptor

/-- Registered types are made of registered ones, and tensors of a fixed extent are refused. -/
theorem Registry.Built.elastic {r : Registry} (hr : r.Built) : ∀ d ∈ r.types.types, d.Elastic := by
  induction hr with
  | empty => exact List.forall_mem_nil _
  | @register r r' decl key _ hd ih =>
    obtain ⟨⟨types, key⟩, ht, hd⟩ := bind_eq_ok_iff.mp hd
    cases hd
    obtain ⟨desc, hdesc, htypes, _⟩ := TypeTable.types_register ht
    have hresolved : desc.Elastic := by
      have hresolves := TypeTable.resolve_eq_ok_iff.mp hdesc
      generalize decl.layout = l at hresolves
      cases hresolves with
      | flat kind extent => trivial
      | @nested _ element extent hkey _ => exact ih element (List.mem_of_getElem? hkey)
      | @tensor _ backing hkey _ hextent => exact ⟨hextent, ih backing (List.mem_of_getElem? hkey)⟩
    intro d hmem
    rw [show types.types = r.types.types ++ [desc] from htypes, List.mem_append,
      List.mem_singleton] at hmem
    rcases hmem with hmem | rfl
    · exact ih d hmem
    · exact hresolved
  | registerFunction name f _ ih => exact ih
  | withUnifier u _ ih => exact ih

end ArrayDispatch
