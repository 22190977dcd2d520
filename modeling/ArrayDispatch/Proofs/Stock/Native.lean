import ArrayDispatch.Proofs.Dispatch.Native
import ArrayDispatch.Proofs.Stock.Lawful

/-!
The stock registry without the kernels of its boolean and float arrays. They all evaluate scalars,
so calls lead to what they lead to without them.
-/

namespace ArrayDispatch

namespace Stock

/-- The table of a type, where boolean and float arrays of any length take operations position by
position instead of by kernels. -/
def plainOps (info : TypeInfo) (op : Op) : OpEntry :=
  match info.ops op with
  | .native kernel => if info.key ∈ [boolX, float32X, float64X] then .generic else .native kernel
  | entry => entry

/-- The registry of the stock types without the kernels of boolean and float arrays. -/
def plainRegistry : Registry := registry.mapOps plainOps

theorem plainOps_of_not_native {info : TypeInfo} {op : Op}
    (h : ∀ kernel, info.ops op ≠ .native kernel) : plainOps info op = info.ops op := by
  unfold plainOps
  cases hop : info.ops op with
  | native kernel => exact absurd hop (h kernel)
  | generic => rfl
  | unsupported => rfl

theorem simplifies_of_key {d : Descriptor} (h : d.key ∉ [boolX, float32X, float64X]) :
    d.Simplifies plainOps := by
  intro op
  left
  change plainOps d.info op = d.info.ops op
  have hkey : d.info.key ∉ [boolX, float32X, float64X] := h
  unfold plainOps
  cases d.info.ops op <;> simp [hkey]

theorem simplifies_of_withKernels {decl : TypeDecl} {kernels : List (Op × Kernel)} {kind : Kind}
    (hdecl : ∀ op kernel, decl.ops op ≠ .native kernel)
    (hkernels : ∀ entry ∈ kernels,
      entry.2.Evaluates entry.1 kind (if entry.1 = .richcmp then .bool else kind))
    {key : TypeKey} (hkey : key ∈ [boolX, float32X, float64X]) (extent : Extent) :
    (Descriptor.flat (info (decl.withKernels kernels) key) kind extent).Simplifies plainOps := by
  intro op
  by_cases hnative : ∃ kernel, (decl.withKernels kernels).ops op = .native kernel
  · obtain ⟨kernel, hop⟩ := hnative
    have hmem := (TypeDecl.ops_withKernels hop).resolve_left (hdecl op kernel)
    have hplain : plainOps (info (decl.withKernels kernels) key) op = .generic := by
      unfold plainOps
      simp only [info, hop]
      exact if_pos hkey
    exact .inr ⟨_, _, _, kernel, rfl, hop, hplain, hkernels _ hmem⟩
  · exact .inl (plainOps_of_not_native fun kernel hop => hnative ⟨kernel, hop⟩)

theorem evaluates_boolKernels : ∀ entry ∈ boolKernels,
    entry.2.Evaluates entry.1 .bool (if entry.1 = .richcmp then .bool else .bool) := by
  simp only [boolKernels, List.forall_mem_cons]
  refine ⟨?_, ?_, ?_, List.forall_mem_nil _⟩
  · exact Kernel.evaluates_boolBinary "and" rfl fun _ _ _ => rfl
  · exact Kernel.evaluates_boolBinary "or" rfl fun _ _ _ => rfl
  · exact Kernel.evaluates_boolBinary "xor" rfl fun _ x y => by cases x <;> cases y <;> rfl

theorem simplifies_masks : masksType.Simplifies plainOps :=
  simplifies_of_withKernels ops_masks_ne_native evaluates_boolKernels (by decide) .dynamic

theorem evaluates_floatKernels (f : Format) : ∀ entry ∈ floatKernels,
    entry.2.Evaluates entry.1 (.float f) (if entry.1 = .richcmp then .bool else .float f) := by
  simp only [floatKernels, List.forall_mem_cons]
  refine ⟨?_, ?_, ?_, ?_, ?_, ?_, ?_, ?_, ?_, ?_, List.forall_mem_nil _⟩
  · exact Kernel.evaluates_floatUnary f "neg" rfl fun _ _ => rfl
  · exact Kernel.evaluates_floatUnary f "abs" rfl fun _ _ => rfl
  · exact Kernel.evaluates_floatUnary f "sqrt" rfl fun _ _ => rfl
  · exact Kernel.evaluates_floatBinary f "add" rfl fun _ _ _ => by cases f <;> rfl
  · exact Kernel.evaluates_floatBinary f "sub" rfl fun _ _ _ => by cases f <;> rfl
  · exact Kernel.evaluates_floatBinary f "mul" rfl fun _ _ _ => by cases f <;> rfl
  · exact Kernel.evaluates_floatBinary f "minimum" rfl fun _ _ _ => by cases f <;> rfl
  · exact Kernel.evaluates_floatBinary f "maximum" rfl fun _ _ _ => by cases f <;> rfl
  · exact Kernel.evaluates_fma f
  · exact Kernel.evaluates_richCompare f

theorem simplifies_floats (name : String) {key : TypeKey} (f : Format)
    (hkey : key ∈ [boolX, float32X, float64X]) :
    (floatsType name key f).Simplifies plainOps :=
  simplifies_of_withKernels (fun _ _ h => by cases h) (evaluates_floatKernels f) hkey .dynamic

theorem simplifies_registry : ∀ d ∈ registry.types.types, d.Simplifies plainOps := by
  rw [types_registry]
  simp only [List.forall_mem_cons]
  have hkey := @simplifies_of_key
  exact ⟨simplifies_masks, hkey (by decide), hkey (by decide), hkey (by decide),
    simplifies_floats _ _ (by decide), simplifies_floats _ _ (by decide), hkey (by decide),
    hkey (by decide), hkey (by decide), hkey (by decide), hkey (by decide), hkey (by decide),
    hkey (by decide), hkey (by decide), List.forall_mem_nil _⟩

end Stock

/-- In the stock registry every call leads to what it leads to if the kernels of boolean and float
arrays are taken away: neither supports the operation, both fail with errors of one kind from the
same frames, or both return values of one type with the same contents. This holds of operands of
all lengths, of nested arrays and of tensors, and of calls in place. -/
theorem apply_plainRegistry {c : Call} (hc : c.Proper) {vs : List Value}
    (hlen : vs.length = c.op.arity) (hvs : ∀ v ∈ vs, Stock.registry.types.WellFormed v)
    {site : Site} (hh : Handles site vs) (held : List Value) :
    (Stock.registry.apply c held site vs).Corresponds
      (Stock.plainRegistry.apply c held site vs) := by
  have ht : Stock.registry.types.Regular :=
    ⟨Stock.built_registry.sound, Stock.stockAccess_registry⟩
  exact Registry.apply_corresponds ht rfl hvs Stock.lawful_registry Stock.simplifies_registry hc
    hlen hh held

/-- A single float is added in place to two floats, of which it takes the length. -/
theorem apply_plainRegistry_broadcast :
    let x := Stock.floatArray ⟨[0]⟩ [.ofMagnitude false 0x3f800000]
    let y := Stock.floatArray ⟨[1]⟩ [.ofMagnitude false 0x40000000, .nan]
    let sum := Stock.floatArray ⟨[0]⟩ [.ofMagnitude false 0x40400000, .nan]
    let c : Call := ⟨.inPlace, .add, .method⟩
    c.Proper ∧ Handles ⟨[2]⟩ [x, y] ∧
      (Stock.registry.apply c [] ⟨[2]⟩ [x, y]).operands = [sum, y] ∧
      (Stock.registry.apply c [] ⟨[2]⟩ [x, y]).Corresponds
        (Stock.plainRegistry.apply c [] ⟨[2]⟩ [x, y]) := by
  intro x y sum c
  have hc : c.Proper := .inPlace (by decide)
  have hh : Handles ⟨[2]⟩ [x, y] := handles_pair (by decide) (by decide)
  have hvs : ∀ v ∈ [x, y], Stock.registry.types.WellFormed v := by
    simp only [List.forall_mem_cons]
    exact ⟨Stock.wellFormed_floatArray _ _, Stock.wellFormed_floatArray _ _,
      List.forall_mem_nil _⟩
  exact ⟨hc, hh, rfl, apply_plainRegistry hc rfl hvs hh []⟩

end ArrayDispatch
