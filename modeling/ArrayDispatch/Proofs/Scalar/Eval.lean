import ArrayDispatch.Proofs.Error.Bind
import ArrayDispatch.Scalar.Eval

/-!
Failures of evaluations on scalars: their number or their kinds do not fit the operation, or its
value does not exist. They never concern lengths, shapes or positions.
-/

namespace ArrayDispatch

/-- A failure of an evaluation on scalars. -/
def Cause.OfScalars : Cause → Prop
  | .arity .. | .type _ | .kernel _ => True
  | _ => False

section Causes

variable {op : Op} {c : Cause}

theorem Binary.ofScalars_of_unary {f : Format} {x : Binary f} (h : x.unary op = .error c) :
    c.OfScalars := by
  unfold unary at h
  split at h <;> cases h
  trivial

theorem Binary.ofScalars_of_binary {f : Format} {x y : Binary f} (h : x.binary op y = .error c) :
    c.OfScalars := by
  unfold binary at h
  split at h <;> cases h
  trivial

namespace IntType

variable {t : IntType} {x y : t.Word}

theorem ofScalars_of_unary (h : t.unary op x = .error c) : c.OfScalars := by
  unfold unary at h
  split at h <;> cases h
  trivial

theorem ofScalars_of_shiftCount (h : t.shiftCount y = .error c) : c.OfScalars := by
  unfold shiftCount at h
  simp only at h
  split at h <;> cases h
  trivial

theorem ofScalars_of_division {α : Type} {b : Prop} [Decidable b] {q r : Attempt α} {s : Prop}
    [Decidable s] (hq : ∀ c, q ≠ .error c) (hr : ∀ c, r ≠ .error c)
    (h : (if b then throw (.kernel .divisionByZero) else if s then q else r) = .error c) :
    c.OfScalars := by
  split at h
  · cases h
    trivial
  · split at h
    · exact absurd h (hq c)
    · exact absurd h (hr c)

theorem ofScalars_of_binary (h : t.binary op x y = .error c) : c.OfScalars := by
  unfold binary at h
  split at h
  case h_4 => exact ofScalars_of_division (fun _ h => by cases h) (fun _ h => by cases h) h
  case h_5 => exact ofScalars_of_division (fun _ h => by cases h) (fun _ h => by cases h) h
  case h_6 => exact ofScalars_of_shiftCount (map_eq_error_iff.mp h)
  case h_7 => exact ofScalars_of_shiftCount (map_eq_error_iff.mp h)
  all_goals cases h <;> trivial

end IntType

namespace Scalar

theorem ofScalars_of_unary {s : Scalar} (h : s.unary op = .error c) : c.OfScalars := by
  unfold unary at h
  split at h
  · split at h <;> cases h
    trivial
  · exact IntType.ofScalars_of_unary (map_eq_error_iff.mp h)
  · exact Binary.ofScalars_of_unary (map_eq_error_iff.mp h)

theorem ofScalars_of_onElems {k : Kind} {x y : k.Elem} (h : onElems op k x y = .error c) :
    c.OfScalars := by
  unfold onElems at h
  split at h
  · split at h <;> cases h
    trivial
  · exact IntType.ofScalars_of_binary h
  · exact Binary.ofScalars_of_binary h

theorem ofScalars_of_binary {a b : Scalar} (h : binary op a b = .error c) : c.OfScalars := by
  unfold binary at h
  simp only at h
  split at h
  · cases h
  · exact ofScalars_of_onElems (map_eq_error_iff.mp h)

theorem ofScalars_of_fmaElems {k : Kind} {x y z : k.Elem} (h : fmaElems k x y z = .error c) :
    c.OfScalars := by
  unfold fmaElems at h
  split at h <;> cases h
  trivial

theorem ofScalars_of_eval {slot : Slot} {ss : List Scalar} (h : eval op slot ss = .error c) :
    c.OfScalars := by
  unfold eval at h
  split at h
  · cases h
    trivial
  · split at h
    · split at h <;> cases h
      trivial
    case h_7 => exact ofScalars_of_unary h
    case h_8 => exact ofScalars_of_binary h
    case h_9 => exact ofScalars_of_fmaElems (map_eq_error_iff.mp h)
    all_goals cases h <;> trivial

end Scalar

end Causes

end ArrayDispatch
