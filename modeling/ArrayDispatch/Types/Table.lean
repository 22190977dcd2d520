import ArrayDispatch.Types.Descriptor

/-!
The table of registered types. Types are only added, each one after the types it refers to.
-/

namespace ArrayDispatch

/-- Storage model that a declaration asks for. -/
inductive Layout where
  | flat (kind : Kind) (extent : Extent)
  | nested (element : TypeKey) (extent : Extent)
  | tensor (backing : TypeKey)
deriving DecidableEq

structure TypeDecl where
  name : String
  layout : Layout
  mask : Option TypeKey
  ops : Op → OpEntry
  flags : TypeFlags
  access : Access

namespace TypeDecl

def ofLayout (name : String) (layout : Layout) : TypeDecl :=
  ⟨name, layout, none, fun _ => .generic, .none, .stock⟩

def flat (name : String) (kind : Kind) (extent : Extent) : TypeDecl :=
  ofLayout name (.flat kind extent)

def nested (name : String) (element : TypeKey) (extent : Extent) : TypeDecl :=
  ofLayout name (.nested element extent)

def tensor (name : String) (backing : TypeKey) : TypeDecl :=
  ofLayout name (.tensor backing)

def withMask (d : TypeDecl) (mask : TypeKey) : TypeDecl := { d with mask := some mask }

def withOp (d : TypeDecl) (op : Op) (entry : OpEntry) : TypeDecl :=
  { d with ops := fun o => if o = op then entry else d.ops o }

def withOps (d : TypeDecl) (ops : List Op) (entry : OpEntry) : TypeDecl :=
  { d with ops := fun o => if o ∈ ops then entry else d.ops o }

/-- Gives operations native kernels. -/
def withKernels (d : TypeDecl) (kernels : List (Op × Kernel)) : TypeDecl :=
  kernels.foldl (fun d (op, kernel) => d.withOp op (.native kernel)) d

def withFlags (d : TypeDecl) (flags : TypeFlags) : TypeDecl := { d with flags := flags }

def withAccess (d : TypeDecl) (access : Access) : TypeDecl := { d with access := access }

end TypeDecl

/-- Registered types in order of their keys. -/
structure TypeTable where
  types : List Descriptor

namespace TypeTable

def empty : TypeTable := ⟨[]⟩

def descriptor? (t : TypeTable) (key : TypeKey) : Option Descriptor := t.types[key.index]?

def descriptor (t : TypeTable) (key : TypeKey) : Attempt Descriptor :=
  match t.descriptor? key with
  | some d => pure d
  | none => throw (.type (.unknownKey key))

def depth (t : TypeTable) : Nat := (t.types.map Descriptor.ndim).foldl max 0

/-- Key of the type of this name. -/
def key? (t : TypeTable) (name : String) : Option TypeKey :=
  (t.types.find? (·.name == name)).map Descriptor.key

/-- The descriptor of a declaration under the given key. Elements and backing arrays are not
tensors, and backing arrays have no fixed extent. -/
def resolve (t : TypeTable) (d : TypeDecl) (key : TypeKey) : Attempt Descriptor :=
  let info : TypeInfo := ⟨d.name, key, d.mask, d.ops, d.flags, d.access⟩
  match d.layout with
  | .flat kind extent => pure (.flat info kind extent)
  | .nested element extent => do
    let inner ← t.descriptor element
    if inner.isTensor then throw (.type (.tensorElements d.name))
    else pure (.nested info inner extent)
  | .tensor backing => do
    let inner ← t.descriptor backing
    if inner.isTensor ∨ inner.extent.fixed?.isSome then throw (.type (.staticBacking d.name))
    else pure (.tensor info inner)

/-- The type that a declaration names as its mask, if it names one, is there. -/
def checkMask (t : TypeTable) (mask : Option TypeKey) : Attempt Unit :=
  match mask with
  | some key => (t.descriptor key).map fun _ => ()
  | none => pure ()

/-- Adds a type under the next key. Its name is new, and the types it refers to are there. -/
def register (t : TypeTable) (d : TypeDecl) : Attempt (TypeTable × TypeKey) :=
  if (t.key? d.name).isSome then throw (.type (.registered d.name))
  else do
    let key := TypeKey.ofIndex t.types.length
    let desc ← t.resolve d key
    t.checkMask d.mask
    pure (⟨t.types ++ [desc]⟩, key)

def typeName (t : TypeTable) : Value → String
  | .scalar s => s.kind.name
  | .array a =>
    match t.descriptor? a.type with
    | some d => d.name
    | none => "<unregistered " ++ a.type.text ++ ">"

/-! ## What registration keeps -/

section Register

variable {t t' : TypeTable} {d : TypeDecl} {key : TypeKey} {desc : Descriptor}

theorem info_resolve (h : t.resolve d key = .ok desc) :
    desc.info = ⟨d.name, key, d.mask, d.ops, d.flags, d.access⟩ := by
  unfold resolve at h
  split at h
  · cases h; rfl
  · cases he : t.descriptor ‹_› with
    | error c => simp [he, bind, Except.bind] at h
    | ok inner =>
      simp only [he, bind, Except.bind] at h
      split at h <;> cases h
      rfl
  · cases he : t.descriptor ‹_› with
    | error c => simp [he, bind, Except.bind] at h
    | ok inner =>
      simp only [he, bind, Except.bind] at h
      split at h <;> cases h
      rfl

theorem types_register (h : t.register d = .ok (t', key)) :
    ∃ desc, t.resolve d key = .ok desc ∧ t'.types = t.types ++ [desc] ∧
      key = .ofIndex t.types.length := by
  unfold register at h
  split at h
  · cases h
  · cases hr : t.resolve d (.ofIndex t.types.length) with
    | error c => simp [hr, bind, Except.bind] at h
    | ok desc =>
      cases hm : t.checkMask d.mask with
      | error c => simp [hr, hm, bind, Except.bind] at h
      | ok u =>
        simp [hr, hm, bind, Except.bind, pure, Except.pure] at h
        obtain ⟨rfl, rfl⟩ := h
        exact ⟨desc, hr, rfl, rfl⟩

theorem ndim_le_depth (h : desc ∈ t.types) : desc.ndim ≤ t.depth :=
  (le_foldl_max _ 0).2 _ (List.mem_map_of_mem h)

end Register

/-! ## Checked instances -/

/-- A payload has the layout of a flat or nested type. -/
def fits : Descriptor → Payload → Bool
  | .flat _ kind _, p => p.kind? = some kind
  | .nested _ element _, .nested items => items.all fun v => v.type? = some element.key
  | _, _ => false

/-- Checks that `p` is an instance of the flat or nested type `key`. -/
def checked (t : TypeTable) (key : TypeKey) (p : Payload) : Attempt Payload := do
  let d ← t.descriptor key
  if !fits d p then throw (.type (.layout d.name))
  else
    match d.extent with
    | .fixed n => if p.length = n then pure p else throw (.sizes [p.length, n])
    | .dynamic => pure p

/-- An instance of the flat or nested type `key`. -/
def array (t : TypeTable) (site : Site) (key : TypeKey) (p : Payload) : Attempt Value := do
  let p ← t.checked key p
  pure (.array ⟨site, key, p⟩)

/-- An instance of the tensor type `key`, which has as many elements as its shape. -/
def tensor (t : TypeTable) (site : Site) (key : TypeKey) (p : Payload) (shape : List Nat) :
    Attempt Value := do
  match ← t.descriptor key with
  | .tensor _ b =>
    let p ← t.checked b.key p
    let n ← Shape.count shape
    if p.length = n then
      pure (.array ⟨site, key, .tensor ⟨site.child 0, b.key, p⟩ shape⟩)
    else throw (.sizes [p.length, n])
  | d => throw (.notTensor d.name)

end TypeTable

end ArrayDispatch
