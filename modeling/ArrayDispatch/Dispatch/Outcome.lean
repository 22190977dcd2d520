import ArrayDispatch.Dispatch.Registry
import ArrayDispatch.Value.Identity

/-!
Outcomes of dispatched calls, and how a result replaces operand 0 of a call in place.
-/

namespace ArrayDispatch

/-- What a call that did not fail has led to. -/
inductive Applied where
  | value (v : Value)
  /-- the representative type does not support the operation -/
  | notImplemented

def Applied.value? : Applied → Option Value
  | value v => some v
  | notImplemented => none

/-- The result of a call, the operands after it, and whether the result stands in the storage that
operand 0 had before. -/
structure Outcome where
  result : Dispatched Applied
  operands : List Value
  reused : Bool

namespace Outcome

/-- A failure that leaves the operands alone. -/
def failed (operands : List Value) (e : DispatchError) : Outcome := ⟨.error e, operands, false⟩

/-- A failure that leaves the operands alone and has not escaped from anything yet. -/
def failedBy (operands : List Value) (c : Cause) : Outcome := failed operands (.ofCause c)

def returned (operands : List Value) (v : Value) : Outcome :=
  ⟨.ok (.value v), operands, false⟩

/-- An operation that is not supported leaves the operands alone. -/
def unsupported (operands : List Value) : Outcome := ⟨.ok .notImplemented, operands, false⟩

/-- A failure escapes from frame `f`. -/
def within (o : Outcome) (f : Frame) : Outcome := { o with result := escaping f o.result }

@[simp] theorem operands_within (o : Outcome) (f : Frame) : (o.within f).operands = o.operands :=
  rfl

@[simp] theorem result_within (o : Outcome) (f : Frame) :
    (o.within f).result = escaping f o.result := rfl

end Outcome

/-- Hands back a result. If it is to be moved into the object `target`, that object gets the
contents of the result where it is uniquely held, and is replaced by the result elsewhere. -/
def finish (held operands : List Value) (target : Option Object) (result : Object) : Outcome :=
  match target with
  | none => .returned operands (.array result)
  | some a =>
    let new : Object :=
      if uniquelyHeld held (.array result :: operands) a.id then
        ⟨a.id, result.type, result.payload⟩
      else result
    .returned (replaceObject a.id new operands) (.array new)

/-- Dispatches a call. The handles `held` outside the operands decide, together with the operands,
whether an object can be changed in place; new objects are made at the site. -/
def Dispatcher : Type := Call → (held : List Value) → Site → List Value → Outcome

/-- A call on the elements at one position. It works on handles of its own, and there an operation
that is not supported is an error. -/
def Dispatcher.onElements (d : Dispatcher) (t : TypeTable) : ElementCall := fun site c args =>
  match (d c args site args).result with
  | .ok (.value v) => pure v
  | .ok .notImplemented => fail (.nested c.op (args.map t.typeName))
  | .error e => throw e

end ArrayDispatch
