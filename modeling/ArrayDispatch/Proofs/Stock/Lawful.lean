import ArrayDispatch.Proofs.Stock.Registry
import ArrayDispatch.Proofs.Types.Lawful

/-!
The table of the stock types is lawful: their masks have their layouts, and their kernels compute
what belongs into their results.
-/

namespace ArrayDispatch

theorem TypeDecl.ops_withKernels {decl : TypeDecl} {kernels : List (Op × Kernel)} {op : Op}
    {kernel : Kernel} (h : (decl.withKernels kernels).ops op = .native kernel) :
    decl.ops op = .native kernel ∨ (op, kernel) ∈ kernels := by
  induction kernels generalizing decl with
  | nil => exact .inl h
  | cons entry kernels ih =>
    rcases ih h with h | h
    · change (if op = entry.1 then OpEntry.native entry.2 else decl.ops op) = _ at h
      split at h
      · rename_i heq
        cases h
        exact .inr (by simp [heq])
      · exact .inl h
    · exact .inr (List.mem_cons_of_mem _ h)

namespace Stock

def info (decl : TypeDecl) (key : TypeKey) : TypeInfo :=
  ⟨decl.name, key, decl.mask, decl.ops, decl.flags, decl.access⟩

def masksType : Descriptor := .flat (info masks boolX) .bool .dynamic

def integersType (name : String) (key : TypeKey) (t : IntType) : Descriptor :=
  .flat (info (integers name t) key) (.integer t) .dynamic

def floatsType (name : String) (key : TypeKey) (f : Format) : Descriptor :=
  .flat (info (floats name f) key) (.float f) .dynamic

def complexesType : Descriptor := .flat (info complexes complex2f) (.float .single) (.fixed 2)

def maskTriplesType : Descriptor :=
  .flat (info (.flat "Array3b" .bool (.fixed 3)) array3b) .bool (.fixed 3)

def maskRowsType : Descriptor :=
  .nested (info (.nested "Array3bX" boolX (.fixed 3)) array3bX) masksType (.fixed 3)

def maskTensorsType : Descriptor := .tensor (info (.tensor "TensorXb" boolX) tensorXb) masksType

def triplesType : Descriptor :=
  .flat (info ((TypeDecl.flat "Array3f" (.float .single) (.fixed 3)).withMask array3b) array3f)
    (.float .single) (.fixed 3)

def rowsType : Descriptor :=
  .nested (info ((TypeDecl.nested "Array3fX" float32X (.fixed 3)).withMask array3bX) array3fX)
    (floatsType "Float32X" float32X .single) (.fixed 3)

def tensorsType (name : String) (key backing : TypeKey) (d : Descriptor) : Descriptor :=
  .tensor (info ((TypeDecl.tensor name backing).withMask tensorXb) key) d

theorem types_registry : registry.types.types =
    [masksType, integersType "Int32X" int32X .int32, integersType "Int64X" int64X .int64,
      integersType "UInt32X" uint32X .uint32, floatsType "Float32X" float32X .single,
      floatsType "Float64X" float64X .double, maskTriplesType, triplesType, maskRowsType, rowsType,
      maskTensorsType,
      tensorsType "TensorXi" tensorXi int32X (integersType "Int32X" int32X .int32),
      tensorsType "TensorXf" tensorXf float32X (floatsType "Float32X" float32X .single),
      complexesType] := rfl

theorem convertible_registry : ∀ d ∈ registry.types.types, d.Convertible := by
  rw [types_registry]
  simp only [List.forall_mem_cons]
  exact ⟨trivial, trivial, trivial, trivial, trivial, trivial, trivial, trivial, trivial, trivial,
    ⟨_, _, _, rfl⟩, ⟨_, _, _, rfl⟩, ⟨_, _, _, rfl⟩, trivial, List.forall_mem_nil _⟩

/-- Masks are booleans of any length, or have the rows and the length of what they mask. -/
theorem hasMask_registry :
    ∀ d ∈ registry.types.types, ∃ m, registry.types.Registered m ∧ d.HasMask m := by
  rw [types_registry]
  simp only [List.forall_mem_cons]
  exact ⟨⟨masksType, rfl, .flat rfl (.inl rfl)⟩, ⟨masksType, rfl, .flat rfl (.inl rfl)⟩,
    ⟨masksType, rfl, .flat rfl (.inl rfl)⟩, ⟨masksType, rfl, .flat rfl (.inl rfl)⟩,
    ⟨masksType, rfl, .flat rfl (.inl rfl)⟩, ⟨masksType, rfl, .flat rfl (.inl rfl)⟩,
    ⟨maskTriplesType, rfl, .flat rfl (.inl rfl)⟩, ⟨maskTriplesType, rfl, .flat rfl (.inl rfl)⟩,
    ⟨maskRowsType, rfl, .nested rfl (.inl rfl) (.flat rfl (.inl rfl))⟩,
    ⟨maskRowsType, rfl, .nested rfl (.inl rfl) (.flat rfl (.inl rfl))⟩,
    ⟨maskTensorsType, rfl, .tensor rfl (.flat rfl (.inl rfl))⟩,
    ⟨maskTensorsType, rfl, .tensor rfl (.flat rfl (.inl rfl))⟩,
    ⟨maskTensorsType, rfl, .tensor rfl (.flat rfl (.inl rfl))⟩,
    ⟨masksType, rfl, .flat rfl (.inr ⟨rfl, by decide⟩)⟩, List.forall_mem_nil _⟩

/-! ## Kernels -/

theorem kernelsFit_of_generic {d : Descriptor} (h : ∀ op, d.op op = .generic) :
    d.KernelsFit := by
  have hnative : ∀ op kernel, d.op op ≠ .native kernel := by
    intro op kernel hop
    rw [h op] at hop
    cases hop
  cases d with
  | flat info kind extent => exact fun op kernel hop => absurd hop (hnative op kernel)
  | nested info element extent => exact hnative
  | tensor info backing => exact hnative

theorem kernelsFit_of_withKernels {decl : TypeDecl} {kernels : List (Op × Kernel)} {kind : Kind}
    (hdecl : ∀ op kernel, decl.ops op ≠ .native kernel)
    (hkernels : ∀ entry ∈ kernels, entry.1 ≠ .select ∧
      entry.2.Maps kind (if entry.1 = .richcmp then .bool else kind)) (key : TypeKey)
    (extent : Extent) :
    (Descriptor.flat (info (decl.withKernels kernels) key) kind extent).KernelsFit := by
  intro op kernel hop
  rcases TypeDecl.ops_withKernels hop with h | h
  · exact absurd h (hdecl op kernel)
  · exact hkernels (op, kernel) h

theorem ops_masks_ne_native (op : Op) (kernel : Kernel) :
    ((TypeDecl.flat "BoolX" .bool .dynamic).withOps unsupportedOnMasks .unsupported).ops op ≠
      .native kernel := by
  intro h
  change (if op ∈ unsupportedOnMasks then OpEntry.unsupported else .generic) = _ at h
  split at h <;> cases h

theorem kernelsFit_masks : masksType.KernelsFit := by
  refine kernelsFit_of_withKernels ops_masks_ne_native ?_ boolX .dynamic
  simp only [boolKernels, List.forall_mem_cons]
  exact ⟨⟨by decide, Kernel.maps_boolBinary _ _⟩, ⟨by decide, Kernel.maps_boolBinary _ _⟩,
    ⟨by decide, Kernel.maps_boolBinary _ _⟩, List.forall_mem_nil _⟩

theorem kernelsFit_floats (name : String) (key : TypeKey) (f : Format) :
    (floatsType name key f).KernelsFit := by
  refine kernelsFit_of_withKernels (fun _ _ h => by cases h) ?_ key .dynamic
  simp only [floatKernels, List.forall_mem_cons]
  exact ⟨⟨by decide, Kernel.maps_floatUnary f _ _⟩, ⟨by decide, Kernel.maps_floatUnary f _ _⟩,
    ⟨by decide, Kernel.maps_floatUnary f _ _⟩, ⟨by decide, Kernel.maps_floatBinary f _ _⟩,
    ⟨by decide, Kernel.maps_floatBinary f _ _⟩, ⟨by decide, Kernel.maps_floatBinary f _ _⟩,
    ⟨by decide, Kernel.maps_floatBinary f _ _⟩, ⟨by decide, Kernel.maps_floatBinary f _ _⟩,
    ⟨by decide, Kernel.maps_floatFma f⟩, ⟨by decide, Kernel.maps_richCompare f⟩,
    List.forall_mem_nil _⟩

theorem kernelsFit_complexes : complexesType.KernelsFit := by
  refine kernelsFit_of_withKernels (fun _ _ h => by cases h) ?_ complex2f (.fixed 2)
  simp only [List.forall_mem_cons]
  exact ⟨⟨by decide, Kernel.maps_mulPair⟩, List.forall_mem_nil _⟩

theorem kernelsFit_registry : ∀ d ∈ registry.types.types, d.KernelsFit := by
  rw [types_registry]
  simp only [List.forall_mem_cons]
  have hgeneric := @kernelsFit_of_generic
  exact ⟨kernelsFit_masks, hgeneric fun _ => rfl, hgeneric fun _ => rfl, hgeneric fun _ => rfl,
    kernelsFit_floats _ _ _, kernelsFit_floats _ _ _, hgeneric fun _ => rfl,
    hgeneric fun _ => rfl, hgeneric fun _ => rfl, hgeneric fun _ => rfl, hgeneric fun _ => rfl,
    hgeneric fun _ => rfl, hgeneric fun _ => rfl, kernelsFit_complexes, List.forall_mem_nil _⟩

theorem lawful_registry : registry.types.Lawful :=
  ⟨convertible_registry, hasMask_registry, kernelsFit_registry⟩

/-! ## Arrays of floats -/

def floatArray (site : Site) (xs : List (Binary .single)) : Value :=
  .array ⟨site, float32X, .flat ⟨.float .single, xs⟩⟩

theorem wellFormed_floatArray (site : Site) (xs : List (Binary .single)) :
    registry.types.WellFormed (floatArray site xs) := by
  have hd : registry.types.Registered (floatsType "Float32X" float32X .single) := rfl
  exact .of_isInstance hd ⟨_, rfl, rfl, rfl, trivial⟩

end Stock

end ArrayDispatch
