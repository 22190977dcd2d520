import ArrayDispatch.Proofs.Types.Registration
import Mathlib.Data.List.Nodup

/-!
The order in which types are registered. A type stands behind all the types that it refers to, and
no two types share a name or a key, so whatever follows layouts from key to key comes to an end.
-/

namespace ArrayDispatch

namespace Descriptor

/-- The layout of a type, with the types that it is made of under their keys. -/
def layout : Descriptor → Layout
  | flat _ kind extent => .flat kind extent
  | nested _ element extent => .nested element.key extent
  | tensor _ backing => .tensor backing.key

theorem key?_layout (d : Descriptor) : d.layout.key? = d.component?.map key := by
  cases d <;> rfl

end Descriptor

namespace TypeTable

/-! ## Registering one type -/

section Register

variable {t t' : TypeTable} {decl : TypeDecl} {key : TypeKey} {d c : Descriptor}

theorem checkMask_eq_ok_iff {mask : Option TypeKey} :
    t.checkMask mask = .ok () ↔ ∀ k, mask = some k → ∃ d, t.descriptor? k = some d := by
  cases mask with
  | none => exact ⟨fun _ k hk => (by cases hk), fun _ => rfl⟩
  | some k =>
    rw [checkMask, map_eq_ok_iff]
    constructor
    · rintro ⟨d, hd, _⟩ k' hk
      cases hk
      exact ⟨d, descriptor_eq_ok_iff.mp hd⟩
    · intro h
      obtain ⟨d, hd⟩ := h k rfl
      exact ⟨d, descriptor_eq_ok_iff.mpr hd, rfl⟩

/-- A declaration is registered if its name is new and the types it refers to are there. It then
stands behind all others. -/
theorem register_eq_ok_iff :
    t.register decl = .ok (t', key) ↔
      t.key? decl.name = none ∧
      (∀ k, decl.mask = some k → ∃ d, t.descriptor? k = some d) ∧
      key = .ofIndex t.types.length ∧
      ∃ d, t.Resolves (decl.info key) decl.layout d ∧ t' = ⟨t.types ++ [d]⟩ := by
  rw [← checkMask_eq_ok_iff]
  unfold register
  constructor
  · intro h
    split at h
    · cases h
    · rename_i hname
      obtain ⟨d, hd, h⟩ := bind_eq_ok_iff.mp h
      obtain ⟨_, hmask, h⟩ := bind_eq_ok_iff.mp h
      cases h
      exact ⟨by simpa using hname, hmask, rfl, d, resolve_eq_ok_iff.mp hd, rfl⟩
  · rintro ⟨hname, hmask, rfl, d, hd, rfl⟩
    rw [hname, if_neg (by simp)]
    simp only [resolve_eq_ok_iff.mpr hd, hmask, bind, Except.bind]
    rfl

end Register

/-! ## Tables in order -/

/-- Every type has the key of its place and a name of its own, and refers to earlier places. -/
structure Ordered (t : TypeTable) : Prop where
  key_eq : ∀ (i : Nat) (d : Descriptor), t.types[i]? = some d → d.key = .ofIndex i
  nodup : (t.types.map Descriptor.name).Nodup
  component_lt : ∀ (i : Nat) (d c : Descriptor),
    t.types[i]? = some d → d.component? = some c → c.key.index < i
  mask_lt : ∀ (i : Nat) (d : Descriptor) (k : TypeKey),
    t.types[i]? = some d → d.info.mask = some k → k.index < i

theorem ordered_empty : Ordered .empty :=
  ⟨by simp [empty], by simp [empty], by simp [empty], by simp [empty]⟩

theorem key?_eq_none_iff {t : TypeTable} {name : String} :
    t.key? name = none ↔ name ∉ t.types.map Descriptor.name := by
  simp [key?]

theorem key?_concat {types : List Descriptor} {d : Descriptor} {name : String} :
    key? ⟨types ++ [d]⟩ name =
      (key? ⟨types⟩ name).or (if d.name = name then some d.key else none) := by
  by_cases h : d.name = name <;> simp [key?, List.find?_append, h]

section Ordered

variable {t : TypeTable} {decl : TypeDecl} {key : TypeKey} {d : Descriptor}

theorem Ordered.register {t' : TypeTable} (ht : t.Ordered)
    (h : t.register decl = .ok (t', key)) : t'.Ordered := by
  obtain ⟨hname, hmask, rfl, d, hd, rfl⟩ := register_eq_ok_iff.mp h
  have hlt : ∀ k c, t.descriptor? k = some c → k.index < t.types.length := fun k c hk =>
    (List.getElem?_eq_some_iff.mp hk).1
  constructor
  · intro i c hi
    rcases of_getElem?_concat hi with hi | ⟨rfl, rfl⟩
    · exact ht.key_eq i c hi
    · rw [Descriptor.key, hd.info_eq]
      rfl
  · rw [List.map_append, List.map_singleton, List.nodup_append]
    refine ⟨ht.nodup, by simp, ?_⟩
    rw [key?_eq_none_iff] at hname
    intro a ha b hb hab
    rw [List.mem_singleton] at hb
    subst hb hab
    rw [Descriptor.name, hd.info_eq] at ha
    exact hname ha
  · intro i d' c hi hc
    rcases of_getElem?_concat hi with hi | ⟨rfl, rfl⟩
    · exact ht.component_lt i d' c hi hc
    · obtain ⟨k, _, hk⟩ := hd.exists_descriptor? hc
      rw [ht.key_eq _ c hk]
      exact Nat.lt_of_le_of_lt (Nat.mod_le _ _) (hlt k c hk)
  · intro i d' k hi hk
    rcases of_getElem?_concat hi with hi | ⟨rfl, rfl⟩
    · exact ht.mask_lt i d' k hi hk
    · rw [hd.info_eq] at hk
      obtain ⟨c, hc⟩ := hmask k hk
      exact hlt k c hc

end Ordered

/-! ## Following layouts from key to key -/

/-- From a key the layouts lead down to a kind: that of a flat type, or the one that the key in the
layout leads to. -/
inductive LeadsTo (t : TypeTable) : TypeKey → Kind → Prop
  | flat {key : TypeKey} {d : Descriptor} {kind : Kind} {extent : Extent}
      (hd : t.descriptor? key = some d) (hl : d.layout = .flat kind extent) : LeadsTo t key kind
  | step {key k : TypeKey} {d : Descriptor} {kind : Kind} (hd : t.descriptor? key = some d)
      (hl : d.layout.key? = some k) (hk : LeadsTo t k kind) : LeadsTo t key kind

/-- A type fits the types that its layout refers to: its depth is counted from theirs, and they
can be elements or backing arrays. -/
def LaidOut (t : TypeTable) (d : Descriptor) : Prop :=
  match d.layout with
  | .flat .. => d.ndim = 1
  | .nested key _ => ∃ element, t.descriptor? key = some element ∧ element.isTensor = false ∧
      d.ndim = element.ndim + 1
  | .tensor key => ∃ backing, t.descriptor? key = some backing ∧ backing.isTensor = false ∧
      backing.extent = .dynamic ∧ d.ndim = backing.ndim

/-- What a table promises of keys, names, layouts and masks. -/
structure WellOrdered (t : TypeTable) : Prop where
  key_eq : ∀ (i : Nat) (d : Descriptor), t.types[i]? = some d → d.key = ⟨i⟩
  key?_eq_some_iff : ∀ name key,
    t.key? name = some key ↔ ∃ d, t.descriptor? key = some d ∧ d.name = name
  key?_injective : ∀ name name' key,
    t.key? name = some key → t.key? name' = some key → name = name'
  refers_lt : ∀ d ∈ t.types, ∀ k, d.layout.key? = some k → k.index < d.key.index
  mask_lt : ∀ d ∈ t.types, ∀ k, d.info.mask = some k → k.index < d.key.index
  laidOut : ∀ d ∈ t.types, t.LaidOut d
  leadsTo_iff : ∀ d ∈ t.types, ∀ kind, t.LeadsTo d.key kind ↔ kind = d.leafKind

/-- A declaration can be registered: its name is new, and the types that its layout and its mask
refer to are there and fit. -/
def Accepts (t : TypeTable) (d : TypeDecl) : Prop :=
  t.key? d.name = none ∧ (∀ k, d.mask = some k → ∃ c, t.descriptor? k = some c) ∧
  match d.layout with
  | .flat .. => True
  | .nested key _ => ∃ element, t.descriptor? key = some element ∧ element.isTensor = false
  | .tensor key => ∃ backing, t.descriptor? key = some backing ∧ backing.isTensor = false ∧
      backing.extent = .dynamic

/-- A type is what a declaration asks for, under the given key. -/
structure Declares (decl : TypeDecl) (key : TypeKey) (d : Descriptor) : Prop where
  info_eq : d.info = decl.info key
  layout_eq : d.layout = decl.layout

section Accepts

variable {t : TypeTable} {decl : TypeDecl}

theorem exists_register_iff : (∃ out, t.register decl = .ok out) ↔ t.Accepts decl := by
  constructor
  · rintro ⟨⟨t', key⟩, h⟩
    obtain ⟨hname, hmask, _, d, hd, _⟩ := register_eq_ok_iff.mp h
    refine ⟨hname, hmask, ?_⟩
    generalize decl.layout = l at hd ⊢
    cases hd with
    | flat kind extent => trivial
    | nested extent hkey hplain => exact ⟨_, hkey, hplain⟩
    | tensor hkey hplain hextent => exact ⟨_, hkey, hplain, hextent⟩
  · rintro ⟨hname, hmask, hlayout⟩
    suffices h : ∃ d, t.Resolves (decl.info (.ofIndex t.types.length)) decl.layout d by
      obtain ⟨d, hd⟩ := h
      exact ⟨_, register_eq_ok_iff.mpr ⟨hname, hmask, rfl, d, hd, rfl⟩⟩
    cases hl : decl.layout with
    | flat kind extent => exact ⟨_, .flat kind extent⟩
    | nested key extent =>
      rw [hl] at hlayout
      obtain ⟨element, hkey, hplain⟩ := hlayout
      exact ⟨_, .nested extent hkey hplain⟩
    | tensor key =>
      rw [hl] at hlayout
      obtain ⟨backing, hkey, hplain, hextent⟩ := hlayout
      exact ⟨_, .tensor hkey hplain hextent⟩

/-- Where types stand under their own keys, a declared layout is found again in the type. -/
theorem Resolves.declares {key : TypeKey} {d : Descriptor}
    (hkeys : ∀ k c, t.descriptor? k = some c → c.key = k)
    (h : t.Resolves (decl.info key) decl.layout d) : Declares decl key d := by
  refine ⟨h.info_eq, ?_⟩
  generalize decl.layout = l at h
  cases h with
  | flat kind extent => rfl
  | nested extent hkey _ => rw [Descriptor.layout, hkeys _ _ hkey]
  | tensor hkey _ _ => rw [Descriptor.layout, hkeys _ _ hkey]

end Accepts

section Keys

variable {t : TypeTable} {d : Descriptor}

theorem LeadsTo.unique {key : TypeKey} {k k' : Kind} (h : t.LeadsTo key k)
    (h' : t.LeadsTo key k') : k = k' := by
  induction h with
  | flat hd hl =>
    cases h' with
    | flat hd' hl' =>
      cases hd.symm.trans hd'
      cases hl.symm.trans hl'
      rfl
    | step hd' hl' _ =>
      cases hd.symm.trans hd'
      rw [hl] at hl'
      cases hl'
  | step hd hl _ ih =>
    cases h' with
    | flat hd' hl' =>
      cases hd.symm.trans hd'
      rw [hl'] at hl
      cases hl
    | step hd' hl' hk' =>
      cases hd.symm.trans hd'
      cases hl.symm.trans hl'
      exact ih hk'

theorem Sound.leadsTo (hs : t.Sound) (hd : t.Registered d) : t.LeadsTo d.key d.leafKind := by
  induction d with
  | flat info kind extent => exact .flat hd rfl
  | nested info element extent ih => exact .step hd rfl (ih (hs.registered_component hd rfl))
  | tensor info backing ih => exact .step hd rfl (ih (hs.registered_component hd rfl))

theorem Sound.leadsTo_iff (hs : t.Sound) (hd : t.Registered d) {kind : Kind} :
    t.LeadsTo d.key kind ↔ kind = d.leafKind :=
  ⟨fun h => h.unique (hs.leadsTo hd), fun h => h ▸ hs.leadsTo hd⟩

theorem Sound.laidOut (hs : t.Sound) (hd : t.Registered d) : t.LaidOut d := by
  have hplaced := hs.placed_of_registered hd
  cases d with
  | flat info kind extent => rfl
  | nested info element extent =>
    obtain ⟨hc, hplain⟩ := hplaced.component element rfl
    exact ⟨element, hc, hplain, rfl⟩
  | tensor info backing =>
    obtain ⟨hc, hplain⟩ := hplaced.component backing rfl
    exact ⟨backing, hc, hplain, hplaced.backing rfl backing rfl, rfl⟩

variable (ho : t.Ordered) (hn : t.types.length ≤ 0x100000000)

include ho hn

theorem Ordered.key_eq_of_getElem? {i : Nat} (hi : t.types[i]? = some d) : d.key = ⟨i⟩ := by
  have hlt : i < t.types.length := (List.getElem?_eq_some_iff.mp hi).1
  rw [ho.key_eq i d hi, TypeKey.ofIndex, Nat.mod_eq_of_lt (by omega)]

theorem Ordered.getElem?_of_mem (hd : d ∈ t.types) : t.types[d.key.index]? = some d := by
  obtain ⟨i, hi⟩ := List.getElem?_of_mem hd
  rw [ho.key_eq_of_getElem? hn hi]
  exact hi

theorem Ordered.key?_eq_some_iff {name : String} {key : TypeKey} :
    t.key? name = some key ↔ ∃ d, t.descriptor? key = some d ∧ d.name = name := by
  rw [key?, Option.map_eq_some_iff]
  constructor
  · rintro ⟨d, hfind, rfl⟩
    exact ⟨d, ho.getElem?_of_mem hn (List.mem_of_find?_eq_some hfind),
      by simpa using List.find?_some hfind⟩
  · rintro ⟨d, hd, rfl⟩
    have hmem : d ∈ t.types := List.mem_of_getElem? hd
    have hsome : (t.types.find? (·.name == d.name)).isSome :=
      List.find?_isSome.mpr ⟨d, hmem, beq_self_eq_true d.name⟩
    obtain ⟨d', hfind⟩ := Option.isSome_iff_exists.mp hsome
    have hname : d'.name = d.name := by simpa using List.find?_some hfind
    have hsame : d' = d :=
      List.inj_on_of_nodup_map ho.nodup (List.mem_of_find?_eq_some hfind) hmem hname
    exact ⟨d, hsame ▸ hfind, ho.key_eq_of_getElem? hn hd⟩

theorem Ordered.wellOrdered (hs : t.Sound) : t.WellOrdered where
  key_eq i d hi := ho.key_eq_of_getElem? hn hi
  key?_eq_some_iff name key := ho.key?_eq_some_iff hn
  key?_injective name name' key h h' := by
    obtain ⟨d, hd, rfl⟩ := (ho.key?_eq_some_iff hn).mp h
    obtain ⟨d', hd', rfl⟩ := (ho.key?_eq_some_iff hn).mp h'
    cases hd.symm.trans hd'
    rfl
  refers_lt d hd k hk := by
    rw [Descriptor.key?_layout, Option.map_eq_some_iff] at hk
    obtain ⟨c, hc, rfl⟩ := hk
    exact ho.component_lt _ d c (ho.getElem?_of_mem hn hd) hc
  mask_lt d hd k hk := ho.mask_lt _ d k (ho.getElem?_of_mem hn hd) hk
  laidOut d hd := hs.laidOut (ho.getElem?_of_mem hn hd)
  leadsTo_iff d hd kind := hs.leadsTo_iff (ho.getElem?_of_mem hn hd)

end Keys

end TypeTable

theorem Registry.Built.ordered {r : Registry} (h : r.Built) : r.types.Ordered := by
  induction h with
  | empty => exact TypeTable.ordered_empty
  | register _ hd ih =>
    obtain ⟨⟨types, key⟩, ht, hd⟩ := bind_eq_ok_iff.mp hd
    cases hd
    exact ih.register ht
  | registerFunction name f _ ih => exact ih
  | withUnifier u _ ih => exact ih

end ArrayDispatch
