import ArrayDispatch.Dispatch.Array

/-!
Calls on tensors: the backing arrays are expanded to one shape and a further call is dispatched on
them.
-/

namespace ArrayDispatch

/-- An array laid out by shape `src`, expanded to shape `dst`. -/
def Object.expand (site : Site) (a : Object) (src dst : List Nat) : Attempt Object :=
  if src.isEmpty ∨ src = dst then pure a
  else do
    let index ← Shape.gather src dst
    match a.payload.gather? index with
    | some p => pure ⟨site, a.type, p⟩
    | none => throw (.itemAccess (index.foldl max 0))

namespace TypeTable

variable (t : TypeTable)

def tensorDescriptor (v : Value) : Attempt Descriptor :=
  match v with
  | .array a => do
    let d ← t.descriptor a.type
    if d.isTensor then pure d else throw (.notTensor d.name)
  | v => throw (.notTensor (t.typeName v))

def partsOf (v : Value) : Attempt (Object × List Nat) :=
  match v with
  | .array a => do
    let d ← t.descriptor a.type
    d.tensorParts a
  | v => throw (.notTensor (t.typeName v))

/-- Backing arrays of tensor operands, expanded to their common shape. -/
def expandAll (site : Site) (operands : List Value) : Attempt (List Value × List Nat) := do
  let parts ← operands.mapM t.partsOf
  let shape ← Shape.reconcile (parts.map Prod.snd)
  let arrays ← parts.zipIdx.mapM fun ((a, src), k) => a.expand (site.child k) src shape
  pure (arrays.map .array, shape)

end TypeTable

namespace Registry

variable (r : Registry)

/-- The representative type of a call on tensors, the expanded backing arrays and their shape. -/
def tensorParts (c : Call) (site : Site) (unified : List Value) :
    Attempt (Descriptor × List Value × List Nat) := do
  let d ← r.types.tensorDescriptor (c.representative unified)
  let expanded ← r.types.expandAll (site.child 2) unified
  pure (d, expanded)

/-- A call on tensors, by a call on their backing arrays. -/
def tensorCall (self : Dispatcher) (c : Call) (held : List Value) (site : Site)
    (unified operands : List Value) : Outcome :=
  match r.tensorParts c site unified with
  | .error cause => .failedBy operands cause
  | .ok (d, arrays, shape) =>
    match (self { c with mode := c.mode.nested } [] (site.child 3) arrays).result with
    | .ok (.value (.array flat)) =>
      finish held operands (c.movable? unified operands)
        ⟨site, c.resultType d, .tensor flat shape⟩
    | .ok (.value (.scalar s)) => .failedBy operands (.type (.tensorScalar s))
    | .ok .notImplemented => .unsupported operands
    | .error e => .failed operands e

end Registry

end ArrayDispatch
