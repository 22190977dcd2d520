import ArrayDispatch.Convert
import ArrayDispatch.Tree.Basic

/-!
Walks over trees: computations that keep a state also when they fail, and the steps that all walks
share. A failure escapes from every node on the way up.
-/

namespace ArrayDispatch

/-- A walk with a state that outlasts failures. -/
abbrev Walk (σ : Type) := ExceptT DispatchError (StateM σ)

variable {ι : Type} [ForeignTypes ι]

def TypeTable.nodeName (t : TypeTable) : Tree ι → String
  | .value v => t.typeName v
  | .list _ => "list"
  | .tuple _ => "tuple"
  | .map _ => "dict"
  | .record m _ => m.typeName
  | .foreign x => x.typeName
  | .empty => "None"

namespace Walk

variable {σ α : Type}

/-- A failure escapes from frame `f`. -/
def framed (f : Frame) (w : Walk σ α) : Walk σ α := ExceptT.adapt (·.within f) w

/-- A step that does not concern the state. -/
def ofAttempt (x : Attempt α) : Walk σ α := liftM (m := Except DispatchError) (Attempt.lift x)

def failed (c : Cause) : Walk σ α := throw (.ofCause c)

/-- Element of an array by the accessor of its type. -/
def itemAt (d : Descriptor) (a : Object) (i : Nat) : Walk σ Value :=
  match d.item? a.payload i with
  | some v => pure v
  | none => failed (.itemAccess i)

def sameLength (m n : Nat) : Walk σ Unit :=
  if m = n then pure () else failed (.structural (.lengths m n))

end Walk

end ArrayDispatch
