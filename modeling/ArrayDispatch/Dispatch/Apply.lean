import ArrayDispatch.Dispatch.Tensor
import ArrayDispatch.Value.Depth

/-!
The dispatcher. Operands are unified first; a call is then resolved against the type of one
representative operand, as a call on scalars, on plain arrays or on tensors.
-/

namespace ArrayDispatch

namespace Registry

variable (r : Registry)

/-- Operands brought to a common type if they differ in type. -/
def unified (c : Call) (site : Site) (operands : List Value) : Dispatched (List Value) :=
  if (operands.zip operands.tail).any fun (v, w) => v.tag ≠ w.tag then
    match r.unifier r.types (site.child 1) c.mode operands with
    | (.ok _, unified) => pure unified
    | (.error e, _) => throw (e.within (c.frame (r.types.typeName (c.representative operands))))
  else pure operands

/-- The frame of a call after unification: it names the common type, or the type that the
representative operand was given with. -/
def frameOf (c : Call) (unified operands : List Value) : Frame :=
  c.frame <|
    match (c.representative unified).type?.bind r.types.descriptor? with
    | some d => d.name
    | none => r.types.typeName (c.representative operands)

/-- A call on unified operands, by the type of the representative one. -/
def resolve (self : Dispatcher) (c : Call) (held : List Value) (site : Site)
    (unified operands : List Value) : Outcome :=
  match c.representative unified with
  | .scalar _ => .failedBy operands (.type .representativeScalar)
  | .array a =>
    match r.types.descriptor a.type with
    | .error cause => .failedBy operands cause
    | .ok d =>
      if d.isTensor then r.tensorCall self c held site unified operands
      else r.arrayCall self c held site d unified operands

/-- A call on scalars. In place its result becomes operand 0. -/
def scalarCall (c : Call) (scalars : List Scalar) (operands : List Value) : Outcome :=
  match Scalar.eval c.op c.slot scalars with
  | .error cause => .failedBy operands cause
  | .ok s =>
    .returned (if c.mode = .inPlace then operands.set 0 (.scalar s) else operands) (.scalar s)

/-- One call, whose nested calls go to `self`. -/
def step (self : Dispatcher) : Dispatcher := fun c held site operands =>
  let n := operands.length
  if n = 0 ∨ 3 < n ∨ c.mode.operandCount?.any (· ≠ n) then
    .failedBy operands (.arity c.op c.expected n)
  else
    match operands.mapM Value.scalar? with
    | some scalars => scalarCall c scalars operands
    | none =>
      match r.unified c site operands with
      | .error e => .failed operands e
      | .ok unified =>
        (r.resolve self c held site unified operands).within (r.frameOf c unified operands)

/-- Dispatches calls that nest at most `n` deep. -/
def applyWithin : Nat → Dispatcher
  | 0 => fun _ _ _ operands => .failedBy operands .tooDeep
  | n + 1 => r.step (applyWithin n)

/-- More levels than the elements of operands can have, counting those that conversions add. -/
def levels (operands : List Value) : Nat :=
  (r.types.depth + 2) * ((operands.map Value.depth).foldr (· + ·) 0 + 4)

/-- Applies an operation to one to three operands. In place the result is also stored in operand 0,
in its own storage where it has the length of the result. -/
def apply : Dispatcher := fun c held site operands =>
  r.applyWithin (r.levels operands) c held site operands

def applyTensor : Dispatcher := fun c held site operands =>
  let n := operands.length
  if 3 < n ∨ n ≤ c.mode.representative then
    .failedBy operands (.arity c.op c.op.arity n)
  else
    match r.unified c site operands with
    | .error e => .failed operands e
    | .ok unified =>
      (r.tensorCall (r.applyWithin (r.levels operands)) c held site unified operands).within
        (r.frameOf c unified operands)

/-- Applies an operation to elements, which are left alone. -/
def callElement : ElementCall := r.apply.onElements r.types

end Registry

end ArrayDispatch
