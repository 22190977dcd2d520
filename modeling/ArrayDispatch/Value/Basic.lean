import ArrayDispatch.Value.Buffer

/-!
Values: bare scalars and handles on array objects. A handle shows the identity of its object and
what the object holds; two handles are the same object if their identities agree.
-/

namespace ArrayDispatch

/-- A place in a run. An array object is made at a site of its own, which is its identity. -/
structure Site where
  path : List Nat
deriving DecidableEq, Repr, Inhabited

/-- One of the places into which a place divides. -/
def Site.child (s : Site) (i : Nat) : Site := ⟨i :: s.path⟩

mutual

/-- Operand or result of an operation. -/
inductive Value where
  | scalar (s : Scalar)
  | array (a : Object)

/-- An array object of a registered type. -/
inductive Object where
  | mk (id : Site) (type : TypeKey) (payload : Payload)

/-- What an array object holds. -/
inductive Payload where
  /-- scalars of one kind -/
  | flat (b : Buffer)
  /-- elements that are values of their own -/
  | nested (items : List Value)
  /-- an array read through a shape -/
  | tensor (backing : Object) (shape : List Nat)

end

inductive TypeTag where
  | scalar (k : Kind)
  | array (key : TypeKey)
deriving DecidableEq

instance : Inhabited Payload := ⟨.nested []⟩
instance : Inhabited Object := ⟨⟨default, default, default⟩⟩
instance : Inhabited Value := ⟨.scalar default⟩

namespace Object

def id : Object → Site
  | ⟨i, _, _⟩ => i

def type : Object → TypeKey
  | ⟨_, t, _⟩ => t

def payload : Object → Payload
  | ⟨_, _, p⟩ => p

def withPayload (a : Object) (p : Payload) : Object := ⟨a.id, a.type, p⟩

def copyAt (a : Object) (site : Site) : Object := ⟨site, a.type, a.payload⟩

end Object

namespace Value

def tag : Value → TypeTag
  | scalar s => .scalar s.kind
  | array a => .array a.type

def object? : Value → Option Object
  | scalar _ => none
  | array a => some a

def scalar? : Value → Option Scalar
  | scalar s => some s
  | array _ => none

def type? (v : Value) : Option TypeKey := v.object?.map Object.type

def isArray (v : Value) : Bool := v.object?.isSome

/-- Identity of an array value. Scalars have none. -/
def id? (v : Value) : Option Site := v.object?.map Object.id

/-- Two handles on one object. -/
def same (v w : Value) : Bool := v.id?.isSome && v.id? == w.id?

end Value

namespace Payload

/-- Number of elements on the top level; a tensor has those of its backing array. -/
def length : Payload → Nat
  | flat b => b.length
  | nested items => items.length
  | tensor ⟨_, _, p⟩ _ => p.length

def kind? : Payload → Option Kind
  | flat b => some b.kind
  | _ => none

/-- Element at a position. Those of a tensor are reached through its backing array only. -/
def get? : Payload → Nat → Option Value
  | flat b, i => (b.get? i).map .scalar
  | nested items, i => items[i]?
  | tensor .., _ => none

/-- Stores a value, or hands it back. Flat payloads take any scalar and convert it. -/
def set (p : Payload) (i : Nat) (v : Value) : Except Value Payload :=
  if p.length ≤ i then throw v
  else
    match p, v with
    | nested items, v => pure (nested (items.set i v))
    | flat b, .scalar s => pure (flat (b.set i s))
    | _, v => throw v

/-- The elements at the given positions, `none` if one is out of range or for a tensor. -/
def gather? : Payload → List Nat → Option Payload
  | flat b, index => (b.gather? index).map flat
  | nested items, index => (index.mapM (items[·]?)).map nested
  | tensor .., _ => none

/-- Cuts a flat payload off or fills it up with zeros; the others stay as they are. -/
def resize : Payload → Nat → Payload
  | flat b, n => flat (b.resize n)
  | p, _ => p

def zeros (k : Kind) (n : Nat) : Payload := flat (.zeros k n)

def items? : Payload → Option (List Value)
  | nested items => some items
  | _ => none

def tensor? : Payload → Option (Object × List Nat)
  | tensor backing shape => some (backing, shape)
  | _ => none

end Payload

def Object.length (a : Object) : Nat := a.payload.length

namespace Payload

@[simp] theorem length_flat (b : Buffer) : (flat b).length = b.length := rfl

@[simp] theorem length_nested (items : List Value) : (nested items).length = items.length := rfl

@[simp] theorem length_tensor (a : Object) (shape : List Nat) :
    (tensor a shape).length = a.length := by
  obtain ⟨_, _, _⟩ := a
  rfl

theorem set_of_length_le {p : Payload} {i : Nat} (h : p.length ≤ i) (v : Value) :
    p.set i v = .error v := by
  unfold set
  rw [if_pos h]
  rfl

theorem set_flat {b : Buffer} {i : Nat} (h : i < b.length) (s : Scalar) :
    (flat b).set i (.scalar s) = .ok (flat (b.set i s)) := by
  unfold set
  rw [if_neg (by simpa using h)]
  rfl

theorem set_nested {items : List Value} {i : Nat} (h : i < items.length) (v : Value) :
    (nested items).set i v = .ok (nested (items.set i v)) := by
  unfold set
  rw [if_neg (by simpa using h)]
  rfl

theorem eq_of_set_eq_error {p : Payload} {i : Nat} {v w : Value} (h : p.set i v = .error w) :
    w = v := by
  unfold set at h
  split at h
  · cases h; rfl
  · split at h
    · cases h
    · cases h
    · cases h; rfl

end Payload

end ArrayDispatch
