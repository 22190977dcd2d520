import ArrayDispatch.Dispatch.Loop
import ArrayDispatch.Shape

/-!
Calls on plain arrays: by a kernel of the representative type, or by the generic loop over
elements, which dispatches further calls.
-/

namespace ArrayDispatch

/-- The object that receives the result of a call in place: operand 0, if unification has left it
alone. -/
def Call.movable? (c : Call) (unified operands : List Value) : Option Object :=
  match unified, operands with
  | .array a :: _, .array b :: _ => if c.mode = .inPlace ∧ a.id = b.id then some b else none
  | _, _ => none

def Call.resultType (c : Call) (d : Descriptor) : TypeKey :=
  if c.mode = .richCompare then d.maskType else d.key

/-- A call is an ordering that the type `d` does not admit. -/
def Call.isUnordered (c : Call) (d : Descriptor) : Bool :=
  match c.op, c.slot with
  | .richcmp, .compare cmp => cmp.isOrdering && d.info.flags.forbidsOrdering
  | _, _ => false

def payloads (vs : List Value) : Attempt (List Payload) :=
  vs.mapM fun
    | .array a => pure a.payload
    | .scalar s => throw (.type (.nativeScalar s.kind))

/-- Length of an operand; a scalar counts as one element. -/
def TypeTable.operandLength (t : TypeTable) : Value → Attempt Nat
  | .scalar _ => pure 1
  | .array a => do
    let d ← t.descriptor a.type
    pure (d.lengthOf a.payload)

namespace Registry

variable (r : Registry)

/-- The element-level counterpart of a call. -/
def counterpart (self : Dispatcher) (c : Call) : Attempt Counterpart :=
  match c.slot with
  | .method =>
    pure fun site args => self.onElements r.types site ⟨c.mode.nested, c.op, .method⟩ args
  | .compare cmp =>
    pure fun site args => self.onElements r.types site ⟨.richCompare, c.op, .compare cmp⟩ args
  | .function name =>
    match r.function? name with
    | some f => pure (f r.types (self.onElements r.types))
    | none => throw (.unknownFunction name)

/-- The counterpart of a call, the lengths of its operands and that of its result. -/
def loopParts (self : Dispatcher) (c : Call) (unified : List Value) :
    Attempt (Counterpart × List Nat × Nat) := do
  let counterpart ← r.counterpart self c
  let lens ← unified.mapM r.types.operandLength
  let len ← reconcileLengths lens
  pure (counterpart, lens, len)

/-- A call by the generic loop. Its result goes into the storage of operand 0 if that can be moved
and has the length of the result. Operands that are the same object are then read from the storage
that is being written. -/
def loopCall (self : Dispatcher) (c : Call) (held : List Value) (site : Site)
    (source target : Descriptor) (unified operands : List Value) : Outcome :=
  match r.loopParts self c unified with
  | .error cause => .failedBy operands cause
  | .ok (counterpart, lens, len) =>
    let movable := c.movable? unified operands
    let fits := source.extent.fixed?.isSome || lens.head? == some len
    match movable, fits with
    | some a, true =>
      let sources := unified.map fun v => if v.id? = some a.id then none else some v
      let unique := uniquelyHeld (held ++ sources.filterMap id) operands a.id
      (Loop.mk r.types target counterpart (sources.zip lens) (site.child 4)).intoOperand a unique
        site len operands
    | movable, _ =>
      (Loop.mk r.types target counterpart ((unified.map some).zip lens) (site.child 4)).intoNew
        held site len movable operands

/-- A call on unified operands of a plain array type, by its table of operations. -/
def arrayCall (self : Dispatcher) (c : Call) (held : List Value) (site : Site) (d : Descriptor)
    (unified operands : List Value) : Outcome :=
  if c.isUnordered d then .failedBy operands .invalidComparison
  else
    match r.types.descriptor (c.resultType d) with
    | .error cause => .failedBy operands cause
    | .ok target =>
      match d.op c.op with
      | .unsupported => .unsupported operands
      | .native kernel =>
        match payloads unified >>= kernel.run c.op c.slot with
        | .ok p => finish held operands (c.movable? unified operands) ⟨site, target.key, p⟩
        | .error cause => .failedBy operands cause
      | .generic => r.loopCall self c held site d target unified operands

end Registry

end ArrayDispatch
