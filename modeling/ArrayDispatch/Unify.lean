import ArrayDispatch.Convert

/-!
Unification: operands of different types are brought to one type before they are dispatched. The
stock policy promotes them to the highest type among them.
-/

namespace ArrayDispatch

/-- A policy that brings operands to a common type. It returns the operands also when it fails,
as far as they have been converted. -/
def Unifier : Type :=
  TypeTable → Site → Mode → List Value → Dispatched Unit × List Value

/-- Tensors outrank plain arrays, deeper types shallower ones, and higher leaf kinds lower ones. -/
def Descriptor.outranks (d e : Descriptor) : Bool :=
  if d.isTensor ≠ e.isTensor then d.isTensor
  else if d.ndim ≠ e.ndim then e.ndim < d.ndim
  else e.leafKind.rank < d.leafKind.rank

/-- Replaces values in order, `f` being given their positions from `i` on. The first failure ends
it and leaves the values from there on. -/
def replaceInOrder (f : Nat → Value → Dispatched Value) :
    (i : Nat) → List Value → Dispatched Unit × List Value
  | _, [] => (.ok (), [])
  | i, v :: vs =>
    match f i v with
    | .error e => (.error e, v :: vs)
    | .ok w =>
      let (r, ws) := replaceInOrder f (i + 1) vs
      (r, w :: ws)

namespace TypeTable

variable (t : TypeTable)

/-- The earliest of the highest types of the arrays in a list, from `best` on. -/
def highestFrom (best : Option Descriptor) : List Value → Attempt (Option Descriptor)
  | [] => pure best
  | .scalar _ :: vs => highestFrom best vs
  | .array a :: vs => do
    let d ← t.descriptor a.type
    highestFrom (if best.all d.outranks then some d else best) vs

/-- The type that operands are promoted to. -/
def target (operands : List Value) : Attempt Descriptor := do
  match ← t.highestFrom none operands with
  | some d => pure d
  | none => throw (.unification ((operands.head?.map t.typeName).getD "") "array")

/-- Converts a value to a type unless it has that type. -/
def adapt (site : Site) (key : TypeKey) (v : Value) : Dispatched Value :=
  if v.type? = some key then pure v else t.convert site v key

end TypeTable

namespace Unifier

/-- Promotes every value operand to the highest array type among them. Under `select` the mask,
which is no value operand, goes to the mask type of that type. -/
def promote : Unifier := fun t site mode operands =>
  let first := mode.representative
  match t.target (operands.drop first) with
  | .error c => (.error (.ofCause c), operands)
  | .ok d =>
    let (r, values) :=
      replaceInOrder (fun i => t.adapt (site.child i) d.key) first (operands.drop first)
    match r, mode, operands.take first with
    | .ok _, .select, [mask] =>
      match t.adapt (site.child 0) d.maskType mask with
      | .ok mask => (.ok (), mask :: values)
      | .error e => (.error e, mask :: values)
    | r, _, masks => (r, masks ++ values)

end Unifier

end ArrayDispatch
