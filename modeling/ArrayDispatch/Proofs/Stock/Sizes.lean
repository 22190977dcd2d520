import ArrayDispatch.Proofs.Dispatch.Sizes
import ArrayDispatch.Proofs.Stock.Native

/-!
Lengths that failed calls name in the stock registry, on arrays of any length. Whether a call fails
does not depend on the route that it takes, but what it names does: the kernel of the fused
multiply-add leaves out one of three lengths.
-/

namespace ArrayDispatch

/-- A flat type of any length admits all comparisons, and its kernels evaluate scalars and name the
lengths that they have reconciled. -/
def Descriptor.ChecksLengths (d : Descriptor) : Prop :=
  ∀ info kind, d = .flat info kind .dynamic → info.flags.forbidsOrdering = false ∧
    ∀ op kernel, info.ops op = .native kernel →
      kernel.Evaluates op kind (if op = .richcmp then .bool else kind) ∧ kernel.Names op kind

namespace Stock

theorem names_boolKernels : ∀ entry ∈ boolKernels, entry.2.Names entry.1 .bool := by
  simp only [boolKernels, List.forall_mem_cons]
  exact ⟨Kernel.names_boolBinary _ _ rfl, Kernel.names_boolBinary _ _ rfl,
    Kernel.names_boolBinary _ _ rfl, List.forall_mem_nil _⟩

theorem names_floatKernels (f : Format) :
    ∀ entry ∈ floatKernels, entry.2.Names entry.1 (.float f) := by
  simp only [floatKernels, List.forall_mem_cons]
  exact ⟨Kernel.names_floatUnary f _ _ rfl, Kernel.names_floatUnary f _ _ rfl,
    Kernel.names_floatUnary f _ _ rfl, Kernel.names_floatBinary f _ _ rfl,
    Kernel.names_floatBinary f _ _ rfl, Kernel.names_floatBinary f _ _ rfl,
    Kernel.names_floatBinary f _ _ rfl, Kernel.names_floatBinary f _ _ rfl, Kernel.names_fma f,
    Kernel.names_richCompare f rfl, List.forall_mem_nil _⟩

theorem checksLengths_of_withKernels {decl : TypeDecl} {kernels : List (Op × Kernel)} {kind : Kind}
    (hdecl : ∀ op kernel, decl.ops op ≠ .native kernel)
    (hordered : (decl.withKernels kernels).flags.forbidsOrdering = false)
    (hevaluates : ∀ entry ∈ kernels,
      entry.2.Evaluates entry.1 kind (if entry.1 = .richcmp then .bool else kind))
    (hnames : ∀ entry ∈ kernels, entry.2.Names entry.1 kind) (key : TypeKey) (extent : Extent) :
    (Descriptor.flat (info (decl.withKernels kernels) key) kind extent).ChecksLengths := by
  intro info' kind' h
  cases h
  refine ⟨hordered, fun op kernel hop => ?_⟩
  have hmem := (TypeDecl.ops_withKernels hop).resolve_left (hdecl op kernel)
  exact ⟨hevaluates _ hmem, hnames _ hmem⟩

theorem checksLengths_masks : masksType.ChecksLengths :=
  checksLengths_of_withKernels ops_masks_ne_native rfl evaluates_boolKernels names_boolKernels boolX
    .dynamic

theorem checksLengths_floats (name : String) (key : TypeKey) (f : Format) :
    (floatsType name key f).ChecksLengths :=
  checksLengths_of_withKernels (fun _ _ h => by cases h) rfl (evaluates_floatKernels f)
    (names_floatKernels f) key .dynamic

theorem checksLengths_integers (name : String) (key : TypeKey) (t : IntType) :
    (integersType name key t).ChecksLengths := by
  intro info kind h
  cases h
  exact ⟨rfl, fun op kernel hop => by cases hop⟩

theorem checksLengths_registry : ∀ d ∈ registry.types.types, d.ChecksLengths := by
  rw [types_registry]
  simp only [List.forall_mem_cons]
  have hother : ∀ {d : Descriptor}, d.extent ≠ .dynamic ∨ d.isTensor = true →
      d.ChecksLengths := by
    rintro d hd info kind rfl
    rcases hd with hd | hd
    · exact absurd rfl hd
    · cases hd
  exact ⟨checksLengths_masks, checksLengths_integers _ _ _, checksLengths_integers _ _ _,
    checksLengths_integers _ _ _, checksLengths_floats _ _ _, checksLengths_floats _ _ _,
    hother (.inl (by decide)), hother (.inl (by decide)), hother (.inl (by decide)),
    hother (.inl (by decide)), hother (.inr rfl), hother (.inr rfl), hother (.inr rfl),
    hother (.inl (by decide)), List.forall_mem_nil _⟩

end Stock

/-- In the stock registry, a call on arrays of one flat type of any length fails over lengths
exactly if one of them is neither 1 nor the greatest. The lengths of all operands are named then,
but for the fused multiply-add of a kernel, which names two: those of the factors if they do not
agree, and otherwise the length that they agree on and that of the summand. -/
theorem apply_sizes {info : TypeInfo} {kind : Kind}
    (hd : Stock.registry.types.Registered (.flat info kind .dynamic)) {c : Call} (hc : c.Proper)
    (hop : info.ops c.op ≠ .unsupported) {vs : List Value}
    (hvs : ∀ v ∈ vs, (Descriptor.flat info kind .dynamic).IsInstance v)
    (hlen : vs.length = c.op.arity) {lens : List Nat} (hl : Lengths vs lens) (held : List Value)
    (site : Site) :
    ((∃ e sizes, (Stock.registry.apply c held site vs).result = .error e ∧
        e.cause = .sizes sizes) ↔ ∃ n ∈ lens, n ≠ 1 ∧ n ≠ greatest lens) ∧
      ∀ e sizes, (Stock.registry.apply c held site vs).result = .error e →
        e.cause = .sizes sizes → sizes = (info.ops c.op).namedLengths c.op lens := by
  have ht : Stock.registry.types.Regular :=
    ⟨Stock.built_registry.sound, Stock.stockAccess_registry⟩
  obtain ⟨hordered, hkernels⟩ :=
    Stock.checksLengths_registry _ (TypeTable.Regular.mem_of_registered hd) info kind rfl
  have h := Registry.apply_checksLengths ht hc hd hvs hlen hl Stock.lawful_registry hordered hop
    (hkernels c.op) held site
  exact ⟨h.exists_iff, fun e sizes he hcause => h.sizes_eq he hcause⟩

/-- Integers of the lengths 2, 3 and 3 are multiplied and added by the generic loop, which names all
three. -/
theorem apply_sizes_integers :
    let xs := [Stock.integerArray ⟨[0]⟩ [1, 2], Stock.integerArray ⟨[1]⟩ [1, 2, 3],
      Stock.integerArray ⟨[2]⟩ [1, 2, 3]]
    ∃ e, (Stock.registry.apply ⟨.normal, .fma, .method⟩ [] ⟨[3]⟩ xs).result = .error e ∧
      e.cause = .sizes [2, 3, 3] := by
  intro xs
  have hvs : ∀ v ∈ xs,
      (Descriptor.flat Stock.integersInfo (.integer .int32) .dynamic).IsInstance v := by
    simp only [xs, List.forall_mem_cons]
    exact ⟨Stock.isInstance_integerArray _ _, Stock.isInstance_integerArray _ _,
      Stock.isInstance_integerArray _ _, List.forall_mem_nil _⟩
  have hl : Lengths xs [2, 3, 3] := .cons rfl (.cons rfl (.cons rfl .nil))
  obtain ⟨hiff, hsizes⟩ := apply_sizes Stock.registered_integers
    (c := ⟨.normal, .fma, .method⟩) (.normal (by decide)) (by rintro ⟨⟩) hvs rfl hl [] ⟨[3]⟩
  obtain ⟨e, sizes, he, hcause⟩ := hiff.mpr ⟨2, by decide, by decide, by decide⟩
  refine ⟨e, he, ?_⟩
  rw [hcause, hsizes e sizes he hcause]
  rfl

/-- Floats of the same lengths go to the kernel, which does not name the third. -/
theorem apply_sizes_floats :
    let xs := [Stock.floatArray ⟨[0]⟩ [.nan, .nan], Stock.floatArray ⟨[1]⟩ [.nan, .nan, .nan],
      Stock.floatArray ⟨[2]⟩ [.nan, .nan, .nan]]
    Lengths xs [2, 3, 3] ∧
      ∃ e, (Stock.registry.apply ⟨.normal, .fma, .method⟩ [] ⟨[3]⟩ xs).result = .error e ∧
        e.cause = .sizes [2, 3] ∧ e.cause ≠ .sizes [2, 3, 3] :=
  ⟨.cons rfl (.cons rfl (.cons rfl .nil)), _, rfl, rfl, by decide⟩

end ArrayDispatch
