import ArrayDispatch.Types.Table

/-!
Conversion of values to a given type. Scalars are lifted, arrays of the same depth are converted
element by element, shallower arrays become every element of a deeper one, and plain arrays become
tensors with one axis.
-/

namespace ArrayDispatch

namespace TypeTable

variable (t : TypeTable)

/-- Stores an element through the accessor of its array's type. -/
def store (d : Descriptor) (p : Payload) (i : Nat) (v : Value) : Dispatched Payload :=
  match d.setItem p i v with
  | .ok p => pure p
  | .error v => fail (.itemAssign i (t.typeName v))

/-- A new instance of `d` with `n` elements, stored in order. -/
def build (d : Descriptor) (site : Site) (n : Nat) (item : Nat → Dispatched Value) :
    Dispatched Object := do
  let p ← (List.range n).foldlM (fun p i => do t.store d p i (← item i)) (d.alloc site n)
  pure ⟨site, d.key, p⟩

/-- A new instance of `d` whose every element is `v`: as many as its extent, or a single one. -/
def fill (d : Descriptor) (site : Site) (v : Value) : Dispatched Object :=
  t.build d site (d.extent.fixed?.getD 1) fun _ => pure v

/-- An instance of a type with the value of a scalar at every leaf. -/
def lift (site : Site) (s : Scalar) : Descriptor → Dispatched Object
  | d@(.flat _ kind _) => t.fill d site (.scalar (s.cast kind))
  | d@(.nested _ element _) => do
    let item ← lift (site.child 0) s element
    t.fill d site (.array item)
  | .tensor info backing => do
    let flat ← lift (site.child 0) s backing
    pure ⟨site, info.key, .tensor flat []⟩

/-- Length of a converted array: a fixed extent is met by its own length and by length 1. -/
def convertedLength (extent : Extent) (len : Nat) : Attempt Nat :=
  match extent with
  | .dynamic => pure len
  | .fixed n => if len = n ∨ len = 1 then pure n else throw (.sizes [len, n])

/-- Converts an array of the same depth: reads the elements of `a` by the accessors of its type
`source`, a single one for all positions, and stores what `convert` makes of them. -/
def convertItems (source : Descriptor) (a : Object) (target : Descriptor) (site : Site)
    (convert : Nat → Value → Dispatched Value) : Dispatched Object := do
  let len := source.lengthOf a.payload
  let n ← convertedLength target.extent len
  t.build target site n fun i =>
    let j := if len = 1 then 0 else i
    match source.item? a.payload j with
    | some v => convert i v
    | none => fail (.itemAccess j)

/-- Converts a value to an instance of a type; an instance of it is returned as it is. New objects
are made at the site. -/
def convertTo (site : Site) (v : Value) (target : Descriptor) : Dispatched Object :=
  match v with
  | .scalar s => t.lift site s target
  | .array a =>
    if a.type = target.key then pure a
    else do
      let source ← t.descriptor a.type
      let refused := fail (.unification source.name target.name)
      match target with
      | .flat info kind extent =>
        if source.isTensor ∨ source.ndim ≠ 1 then refused
        else t.convertItems source a (.flat info kind extent) site fun _ item => pure item
      | .nested info element extent =>
        if source.isTensor then refused
        else if source.ndim = element.ndim + 1 then
          t.convertItems source a (.nested info element extent) site fun i item =>
            (convertTo (site.child i) item element).map .array
        else if source.ndim < element.ndim + 1 then do
          let item ← convertTo (site.child 0) (.array a) element
          t.fill (.nested info element extent) site (.array item)
        else refused
      | .tensor info backing =>
        if source.isTensor then
          match a.payload.tensor? with
          | some (flat, shape) => do
            let flat ← convertTo (site.child 0) (.array flat) backing
            pure ⟨site, info.key, .tensor flat shape⟩
          | none => refused
        else if source.ndim = 1 then do
          let flat ← convertTo (site.child 0) (.array a) backing
          pure ⟨site, info.key, .tensor flat [source.lengthOf a.payload]⟩
        else refused

/-- Converts a value to the type registered under a key. -/
def convert (site : Site) (v : Value) (key : TypeKey) : Dispatched Value := do
  let d ← t.descriptor key
  (t.convertTo site v d).map .array

@[simp] theorem convertTo_scalar (site : Site) (s : Scalar) (target : Descriptor) :
    t.convertTo site (.scalar s) target = t.lift site s target := by
  unfold convertTo
  rfl

theorem convertTo_of_type_eq (site : Site) {a : Object} {target : Descriptor}
    (h : a.type = target.key) : t.convertTo site (.array a) target = .ok a := by
  unfold convertTo
  simp [h]
  rfl

end TypeTable

end ArrayDispatch
