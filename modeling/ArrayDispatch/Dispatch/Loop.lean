import ArrayDispatch.Dispatch.Outcome

/-!
The generic loop: an operation position by position, through the element-level counterpart.
Operands of length 1 are repeated. The loop writes into new storage or into that of operand 0.
-/

namespace ArrayDispatch

/-- The element-level counterpart of a call. New objects are made at the site. -/
def Counterpart : Type := Site → List Value → Dispatched Value

structure Loop where
  types : TypeTable
  /-- type of the result -/
  target : Descriptor
  counterpart : Counterpart
  /-- operands with their lengths; `none` is the storage that is written -/
  sources : List (Option Value × Nat)
  /-- each position makes its objects below this site -/
  site : Site

namespace Loop

variable (l : Loop)

/-- Element of an operand by the accessor of its type; a scalar is its own element. -/
def itemOf (v : Value) (j : Nat) : Dispatched (Option Value) :=
  match v with
  | .scalar _ => pure (some v)
  | .array a => do
    let d ← l.types.descriptor a.type
    pure (d.item? a.payload j)

/-- Argument of the counterpart at position `i`, where `p` is what the target holds. -/
def argument (p : Payload) (i : Nat) (source : Option Value × Nat) : Dispatched Value := do
  let j := if source.2 = 1 then 0 else i
  let item ← match source.1 with
    | some v => l.itemOf v j
    | none => pure (l.target.item? p j)
  match item with
  | some v => pure v
  | none => fail (.itemAccess j)

/-- One position: all arguments are read before the result is stored. -/
def position (p : Payload) (i : Nat) : Dispatched Payload := do
  let args ← l.sources.mapM (l.argument p i)
  let v ← escaping (.element i) (l.counterpart (l.site.child i) args)
  l.types.store l.target p i v

/-- Runs the positions in order, and keeps what was stored before a failure. -/
def runFrom (p : Payload) : List Nat → Dispatched Unit × Payload
  | [] => (.ok (), p)
  | i :: is =>
    match l.position p i with
    | .ok q => runFrom q is
    | .error e => (.error e, p)

/-- Fills the first `n` positions of `p`. -/
def run (p : Payload) (n : Nat) : Dispatched Unit × Payload := l.runFrom p (List.range n)

/-- A loop into new storage. Its result may still be moved into operand 0. -/
def intoNew (held : List Value) (site : Site) (len : Nat) (movable : Option Object)
    (operands : List Value) : Outcome :=
  match l.run (l.target.alloc site len) len with
  | (.ok _, p) => finish held operands movable ⟨site, l.target.key, p⟩
  | (.error e, _) => .failed operands e

/-- A loop into the storage of operand 0, the object `a`. An object that is held elsewhere is
copied before. -/
def intoOperand (a : Object) (unique : Bool) (site : Site) (len : Nat) (operands : List Value) :
    Outcome :=
  let (filled, p) := l.run a.payload len
  let new : Object := ⟨if unique then a.id else site, a.type, p⟩
  ⟨filled.map fun _ => .value (.array new), replaceObject a.id new operands,
    unique && filled.toBool⟩

theorem runFrom_append (p : Payload) (is js : List Nat) :
    l.runFrom p (is ++ js) =
      match l.runFrom p is with
      | (.ok _, q) => l.runFrom q js
      | (.error e, q) => (.error e, q) := by
  induction is generalizing p with
  | nil => rfl
  | cons i is ih =>
    simp only [List.cons_append, runFrom]
    split
    · exact ih _
    · rfl

theorem run_succ (p : Payload) (n : Nat) :
    l.run p (n + 1) =
      match l.run p n with
      | (.ok _, q) =>
        match l.position q n with
        | .ok q => (.ok (), q)
        | .error e => (.error e, q)
      | (.error e, q) => (.error e, q) := by
  rw [run, List.range_succ, runFrom_append]
  rfl

end Loop

end ArrayDispatch
