import ArrayDispatch.Error.Cause

/-!
Errors: a cause with the trail of frames that it collects on its way out, and computations that
fail with or without such a trail.
-/

namespace ArrayDispatch

/-- One step of the way on which an error escapes. -/
inductive Frame where
  | method (type : String) (op : Op)
  | function (name type : String)
  | element (index : Nat)
  | walk (walker : String) (types : List String)
deriving DecidableEq

/-- A cause with the frames it escaped from, innermost first. -/
structure DispatchError where
  cause : Cause
  frames : List Frame
deriving DecidableEq

namespace DispatchError

/-- An error that has not escaped from anything yet. -/
def ofCause (c : Cause) : DispatchError := ⟨c, []⟩

def within (e : DispatchError) (f : Frame) : DispatchError :=
  { e with frames := e.frames ++ [f] }

@[simp] theorem cause_ofCause (c : Cause) : (ofCause c).cause = c := rfl

@[simp] theorem frames_ofCause (c : Cause) : (ofCause c).frames = [] := rfl

@[simp] theorem cause_within (e : DispatchError) (f : Frame) : (e.within f).cause = e.cause := rfl

@[simp] theorem frames_within (e : DispatchError) (f : Frame) :
    (e.within f).frames = e.frames ++ [f] := rfl

end DispatchError

/-- The outcome of a computation that can fail without a frame. -/
abbrev Attempt (α : Type) := Except Cause α

/-- The outcome of a computation whose failures carry frames. -/
abbrev Dispatched (α : Type) := Except DispatchError α

def Attempt.lift {α : Type} (x : Attempt α) : Dispatched α :=
  x.mapError DispatchError.ofCause

instance : MonadLift (Except Cause) (Except DispatchError) := ⟨Attempt.lift⟩

def fail {α : Type} (c : Cause) : Dispatched α := .error (.ofCause c)

/-- A failure escapes from frame `f`. -/
def escaping {α : Type} (f : Frame) (x : Dispatched α) : Dispatched α :=
  x.mapError (·.within f)

section Laws

variable {α : Type}

@[simp] theorem Attempt.lift_ok (a : α) : Attempt.lift (.ok a) = .ok a := rfl

@[simp] theorem Attempt.lift_error (c : Cause) :
    Attempt.lift (.error c : Attempt α) = fail c := rfl

@[simp] theorem escaping_ok (f : Frame) (a : α) : escaping f (.ok a) = .ok a := rfl

@[simp] theorem escaping_error (f : Frame) (e : DispatchError) :
    escaping f (.error e : Dispatched α) = .error (e.within f) := rfl

theorem escaping_eq_ok_iff {f : Frame} {x : Dispatched α} {a : α} :
    escaping f x = .ok a ↔ x = .ok a := by
  cases x <;> simp

end Laws

end ArrayDispatch
