import ArrayDispatch.Proofs.Types.Conversion
import ArrayDispatch.Proofs.Types.Kernel

/-!
Lawful tables. The masks of a type have its layout on every level, and its kernels compute what
belongs into its results.
-/

namespace ArrayDispatch

/-- The masks of arrays of extent `e` have extent `e'`. A mask of any length is none for arrays that
are repeated. -/
def Extent.HasMask (e e' : Extent) : Prop := e' = e ∨ e' = .dynamic ∧ e ≠ .fixed 1

namespace Descriptor

/-- `m` is the type of the masks of `d`, and has its layout on every level. -/
inductive HasMask : Descriptor → Descriptor → Prop
  | flat {info info' : TypeInfo} {kind : Kind} {extent extent' : Extent}
      (hkey : info'.key = info.mask.getD info.key) (he : extent.HasMask extent') :
      HasMask (flat info kind extent) (flat info' .bool extent')
  | nested {info info' : TypeInfo} {element element' : Descriptor} {extent extent' : Extent}
      (hkey : info'.key = info.mask.getD info.key) (he : extent.HasMask extent')
      (hi : HasMask element element') :
      HasMask (nested info element extent) (nested info' element' extent')
  | tensor {info info' : TypeInfo} {backing backing' : Descriptor}
      (hkey : info'.key = info.mask.getD info.key) (hb : HasMask backing backing') :
      HasMask (tensor info backing) (tensor info' backing')

/-- Its kernels take payloads of the type to payloads of the result type. Selections have none. -/
def KernelsFit : Descriptor → Prop
  | flat info kind _ => ∀ op kernel, info.ops op = .native kernel →
      op ≠ .select ∧ kernel.Maps kind (if op = .richcmp then .bool else kind)
  | d => ∀ op kernel, d.op op ≠ .native kernel

/-- `m` is `d` or the type of its masks. -/
def Parallels (d m : Descriptor) : Prop := m = d ∨ d.HasMask m

variable {d m : Descriptor}

theorem HasMask.key_eq (h : d.HasMask m) : m.key = d.maskType := by
  cases h <;> assumption

namespace Parallels

theorem isTensor_eq (h : d.Parallels m) : m.isTensor = d.isTensor := by
  rcases h with rfl | h
  · rfl
  · cases h <;> rfl

theorem exists_nested {info : TypeInfo} {element : Descriptor} {extent : Extent}
    (h : (nested info element extent).Parallels m) :
    ∃ info' element' extent', m = nested info' element' extent' ∧ element.Parallels element' := by
  rcases h with rfl | h
  · exact ⟨info, element, extent, rfl, .inl rfl⟩
  · cases h with
    | nested _ _ hi => exact ⟨_, _, _, rfl, .inr hi⟩

theorem exists_tensor {info : TypeInfo} {backing : Descriptor}
    (h : (tensor info backing).Parallels m) :
    ∃ info' backing', m = tensor info' backing' ∧ backing.Parallels backing' := by
  rcases h with rfl | h
  · exact ⟨info, backing, rfl, .inl rfl⟩
  · cases h with
    | tensor _ hb => exact ⟨_, _, rfl, .inr hb⟩

theorem extent (h : d.Parallels m) : d.extent.HasMask m.extent := by
  rcases h with rfl | h
  · exact .inl rfl
  · cases h with
    | flat _ he => exact he
    | nested _ he _ => exact he
    | tensor _ _ => exact .inl rfl

end Parallels

end Descriptor

theorem Extent.HasMask.admits {e e' : Extent} (h : e.HasMask e') {n : Nat} (hn : e.Admits n) :
    e'.Admits n := by
  rcases h with rfl | ⟨rfl, _⟩
  · exact hn
  · trivial

namespace TypeTable

/-- Values become instances of every type by conversion, every type has one of masks, and kernels
keep to the types. -/
structure Lawful (t : TypeTable) : Prop where
  convertible : ∀ d ∈ t.types, d.Convertible
  hasMask : ∀ d ∈ t.types, ∃ m, t.Registered m ∧ d.HasMask m
  kernelsFit : ∀ d ∈ t.types, d.KernelsFit

theorem eq_of_key_eq {t : TypeTable} {d d' : Descriptor} (hd : t.Registered d)
    (hd' : t.Registered d') (h : d'.key = d.key) : d' = d := by
  rw [Registered, h, hd, Option.some.injEq] at hd'
  exact hd'.symm

end TypeTable

end ArrayDispatch
