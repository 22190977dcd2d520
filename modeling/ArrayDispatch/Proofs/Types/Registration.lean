import ArrayDispatch.Dispatch.Registry
import ArrayDispatch.Proofs.Error.Bind
import ArrayDispatch.Proofs.Types.Instance

/-!
Registries that arise by registration. Every type that a key can name stands under its own key, and
so do the types it is made of, which are no tensors.
-/

namespace ArrayDispatch

/-- The type that the elements or the backing array of a type have. -/
def Descriptor.component? : Descriptor → Option Descriptor
  | flat .. => none
  | nested _ element _ => some element
  | tensor _ backing => some backing

theorem Descriptor.ndim_le_of_component? {d c : Descriptor} (h : d.component? = some c) :
    c.ndim ≤ d.ndim := by
  cases d with
  | flat info kind extent => cases h
  | nested info element extent =>
    cases h
    exact Nat.le_succ _
  | tensor info backing =>
    cases h
    exact Nat.le_refl _

theorem Descriptor.ndim_pos (d : Descriptor) : 0 < d.ndim := by
  induction d with
  | flat info kind extent => exact Nat.one_pos
  | nested info element extent _ => exact Nat.succ_pos _
  | tensor info backing ih => exact ih

theorem Descriptor.not_ndim_nested_le_one (info : TypeInfo) (element : Descriptor)
    (extent : Extent) : ¬(nested info element extent).ndim ≤ 1 := by
  have hpos := element.ndim_pos
  rw [ndim]
  omega

theorem Descriptor.exists_flat_of_ndim {d : Descriptor} (hp : d.isTensor = false)
    (hdim : d.ndim ≤ 1) : ∃ info kind extent, d = .flat info kind extent := by
  cases d with
  | flat info kind extent => exact ⟨info, kind, extent, rfl⟩
  | nested info element extent => exact absurd hdim (not_ndim_nested_le_one info element extent)
  | tensor info backing => cases hp

/-- The key that a layout refers to. -/
def Layout.key? : Layout → Option TypeKey
  | flat .. => none
  | nested element _ => some element
  | tensor backing => some backing

/-- What a declaration says beside its layout, under the given key. -/
def TypeDecl.info (d : TypeDecl) (key : TypeKey) : TypeInfo :=
  ⟨d.name, key, d.mask, d.ops, d.flags, d.access⟩

/-- A registry that arises from the one without types. -/
inductive Registry.Built : Registry → Prop
  | empty : Built .empty
  | register {r r' : Registry} {d : TypeDecl} {key : TypeKey} (h : Built r)
      (hd : r.register d = .ok (r', key)) : Built r'
  | registerFunction {r : Registry} (name : String) (f : ElementFunction) (h : Built r) :
      Built (r.registerFunction name f)
  | withUnifier {r : Registry} (u : Unifier) (h : Built r) : Built (r.withUnifier u)

/-- All types have the accessors of the payload itself. -/
def TypeTable.StockAccess (t : TypeTable) : Prop := ∀ d ∈ t.types, d.info.access = .stock

namespace TypeTable

/-- What registration guarantees of a type at place `i`. -/
structure Placed (t : TypeTable) (i : Nat) (d : Descriptor) : Prop where
  key_eq : d.key = ⟨i⟩
  component : ∀ c, d.component? = some c → t.Registered c ∧ c.isTensor = false
  backing : d.isTensor = true → ∀ c, d.component? = some c → c.extent = .dynamic

/-- What registration guarantees of a table. Keys have 32 bits, so they reach no further place. -/
structure Sound (t : TypeTable) : Prop where
  key_lt : ∀ d ∈ t.types, d.key.index < 0x100000000
  placed : ∀ i d, i < 0x100000000 → t.types[i]? = some d → t.Placed i d

theorem registered_append {t : TypeTable} {ds : List Descriptor} {d : Descriptor}
    (h : t.Registered d) : Registered ⟨t.types ++ ds⟩ d := by
  obtain ⟨hi, _⟩ := List.getElem?_eq_some_iff.mp h
  exact (List.getElem?_append_left hi).trans h

theorem of_getElem?_concat {α : Type} {xs : List α} {x y : α} {i : Nat}
    (h : (xs ++ [x])[i]? = some y) : xs[i]? = some y ∨ i = xs.length ∧ x = y := by
  rw [List.getElem?_append, List.getElem?_singleton] at h
  split at h
  · exact .inl h
  · split at h
    · exact .inr ⟨by omega, Option.some.inj h⟩
    · cases h

theorem sound_empty : Sound .empty :=
  ⟨by simp [empty], by simp [empty]⟩

/-- The type that a layout makes of the types under the keys that it refers to. -/
inductive Resolves (t : TypeTable) (info : TypeInfo) : Layout → Descriptor → Prop
  | flat (kind : Kind) (extent : Extent) :
      Resolves t info (.flat kind extent) (.flat info kind extent)
  | nested {key : TypeKey} {element : Descriptor} (extent : Extent)
      (hkey : t.descriptor? key = some element) (hplain : element.isTensor = false) :
      Resolves t info (.nested key extent) (.nested info element extent)
  | tensor {key : TypeKey} {backing : Descriptor} (hkey : t.descriptor? key = some backing)
      (hplain : backing.isTensor = false) (hextent : backing.extent = .dynamic) :
      Resolves t info (.tensor key) (.tensor info backing)

section Register

variable {t : TypeTable} {decl : TypeDecl} {key : TypeKey} {d desc : Descriptor}

theorem resolve_eq_ok_iff :
    t.resolve decl key = .ok d ↔ t.Resolves (decl.info key) decl.layout d := by
  unfold resolve
  constructor
  · intro h
    split at h
    · rename_i kind extent hl
      cases h
      rw [hl]
      exact .flat kind extent
    · rename_i k extent hl
      obtain ⟨inner, hinner, h⟩ := bind_eq_ok_iff.mp h
      split at h
      · cases h
      · rename_i hplain
        cases h
        rw [hl]
        exact .nested extent (descriptor_eq_ok_iff.mp hinner) (by simpa using hplain)
    · rename_i k hl
      obtain ⟨inner, hinner, h⟩ := bind_eq_ok_iff.mp h
      split at h
      · cases h
      · rename_i hbacking
        cases h
        rw [not_or] at hbacking
        rw [hl]
        refine .tensor (descriptor_eq_ok_iff.mp hinner) (by simpa using hbacking.1) ?_
        cases hx : inner.extent with
        | fixed n => simp [hx, Extent.fixed?] at hbacking
        | dynamic => rfl
  · intro h
    generalize hl : decl.layout = l at h
    cases h with
    | flat kind extent => rfl
    | nested extent hkey hplain =>
      simp only [descriptor_eq_ok_iff.mpr hkey, bind, Except.bind, hplain]
      rfl
    | tensor hkey hplain hextent =>
      simp only [descriptor_eq_ok_iff.mpr hkey, bind, Except.bind, hplain, hextent]
      rfl

theorem Resolves.info_eq {info : TypeInfo} {l : Layout} (h : t.Resolves info l d) :
    d.info = info := by
  cases h <;> rfl

theorem Resolves.exists_descriptor? {info : TypeInfo} {l : Layout} (h : t.Resolves info l d)
    {c : Descriptor} (hc : d.component? = some c) :
    ∃ k, l.key? = some k ∧ t.descriptor? k = some c := by
  cases h with
  | flat kind extent => cases hc
  | nested extent hkey _ =>
    cases hc
    exact ⟨_, rfl, hkey⟩
  | tensor hkey _ _ =>
    cases hc
    exact ⟨_, rfl, hkey⟩

theorem component_resolve (ht : t.Sound) (hn : t.types.length < 0x100000000)
    (h : t.resolve decl key = .ok desc) (c : Descriptor) (hc : desc.component? = some c) :
    (t.Registered c ∧ c.isTensor = false) ∧ (desc.isTensor = true → c.extent = .dynamic) := by
  have hfound : ∀ k, t.descriptor? k = some c → t.Registered c := by
    intro k hk
    have hlt : k.index < t.types.length := (List.getElem?_eq_some_iff.mp hk).1
    rw [Registered, (ht.placed k.index c (by omega) hk).key_eq]
    exact hk
  have hresolves := resolve_eq_ok_iff.mp h
  generalize decl.layout = l at hresolves
  cases hresolves with
  | flat kind extent => cases hc
  | nested extent hkey hplain =>
    cases hc
    exact ⟨⟨hfound _ hkey, hplain⟩, fun hd => by cases hd⟩
  | tensor hkey hplain hextent =>
    cases hc
    exact ⟨⟨hfound _ hkey, hplain⟩, fun _ => hextent⟩

theorem Sound.register {t' : TypeTable} (ht : t.Sound) (h : t.register decl = .ok (t', key)) :
    t'.Sound := by
  obtain ⟨desc, hd, htypes, hkey⟩ := types_register h
  have hinfo : desc.key = .ofIndex t.types.length := by
    rw [Descriptor.key, info_resolve hd, hkey]
  constructor
  · intro d hm
    rw [htypes, List.mem_append, List.mem_singleton] at hm
    rcases hm with hm | rfl
    · exact ht.key_lt d hm
    · rw [hinfo]
      exact Nat.mod_lt _ (by decide)
  · intro i d hi hget
    have ht' : t' = ⟨t.types ++ [desc]⟩ := by rw [← htypes]
    rw [htypes] at hget
    rcases of_getElem?_concat hget with hget | ⟨rfl, rfl⟩
    · obtain ⟨hk, hc, hb⟩ := ht.placed i d hi hget
      refine ⟨hk, fun c hcd => ⟨?_, (hc c hcd).2⟩, hb⟩
      rw [ht']
      exact registered_append (hc c hcd).1
    · refine ⟨?_, fun c hc => ?_, fun hb c hc => (component_resolve ht hi hd c hc).2 hb⟩
      · rw [hinfo, TypeKey.ofIndex, Nat.mod_eq_of_lt hi]
      · obtain ⟨⟨hr, hp⟩, _⟩ := component_resolve ht hi hd c hc
        rw [ht']
        exact ⟨registered_append hr, hp⟩

end Register

end TypeTable

theorem Registry.Built.sound {r : Registry} (h : r.Built) : r.types.Sound := by
  induction h with
  | empty => exact TypeTable.sound_empty
  | register _ hd ih =>
    obtain ⟨⟨types, key⟩, ht, hd⟩ := bind_eq_ok_iff.mp hd
    cases hd
    exact ih.register ht
  | registerFunction name f _ ih => exact ih
  | withUnifier u _ ih => exact ih

namespace TypeTable

namespace Sound

variable {t : TypeTable} {d c : Descriptor}

theorem placed_of_registered (ht : t.Sound) (hd : t.Registered d) : t.Placed d.key.index d :=
  ht.placed _ d (ht.key_lt d (List.mem_of_getElem? hd)) hd

theorem registered_component (ht : t.Sound) (hd : t.Registered d) (hc : d.component? = some c) :
    t.Registered c :=
  ((ht.placed_of_registered hd).component c hc).1

end Sound

/-! ## Regular tables -/

/-- A table as registration leaves it, with the accessors of the payload itself. -/
structure Regular (t : TypeTable) : Prop where
  sound : t.Sound
  access : t.StockAccess

namespace Regular

variable {t : TypeTable} {d c : Descriptor}

theorem mem_of_registered (hd : t.Registered d) : d ∈ t.types :=
  List.mem_of_getElem? hd

theorem access_of_registered (ht : t.Regular) (hd : t.Registered d) : d.info.access = .stock :=
  ht.access d (mem_of_registered hd)

theorem placed_of_registered (ht : t.Regular) (hd : t.Registered d) : t.Placed d.key.index d :=
  ht.sound.placed_of_registered hd

theorem registered_component (ht : t.Regular) (hd : t.Registered d)
    (hc : d.component? = some c) : t.Registered c :=
  ht.sound.registered_component hd hc

theorem component_isTensor (ht : t.Regular) (hd : t.Registered d) (hc : d.component? = some c) :
    c.isTensor = false :=
  ((ht.placed_of_registered hd).component c hc).2

end Regular

end TypeTable

end ArrayDispatch
