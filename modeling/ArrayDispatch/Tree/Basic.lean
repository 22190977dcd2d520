import ArrayDispatch.Tree.Foreign
import ArrayDispatch.Value.Equality

/-!
Trees: containers of values, as handed to the walkers. Keys of a mapping are sorted, fields of a
record stand in the order of their declaration.
-/

namespace ArrayDispatch

/-- Declaration of a record type: its fields in order, each with its declared type. -/
structure Manifest where
  typeName : String
  fields : List (String × String)
deriving DecidableEq

/-- A structure over scalars, arrays and tensors. -/
inductive Tree (ι : Type) [ForeignTypes ι] where
  | value (v : Value)
  | list (items : List (Tree ι))
  | tuple (items : List (Tree ι))
  /-- entries in order of their keys -/
  | map (entries : List (String × Tree ι))
  /-- one tree per field of the manifest -/
  | record (manifest : Manifest) (values : List (Tree ι))
  | foreign (x : Foreign ι)
  /-- the place of a leaf that a transformation has declined -/
  | empty

variable {ι : Type} [ForeignTypes ι]

instance : Inhabited (Tree ι) := ⟨.empty⟩

namespace Manifest

def names (m : Manifest) : List String := m.fields.map Prod.fst

def declared? (m : Manifest) (field : String) : Option String := m.fields.lookup field

def position? (m : Manifest) (field : String) : Option Nat := m.names.idxOf? field

/-- The first field whose name an earlier one has. -/
def duplicate? : (seen : List String) → List String → Option String
  | _, [] => none
  | seen, n :: ns => if n ∈ seen then some n else duplicate? (n :: seen) ns

/-- Declares a record type, whose field names are all different. -/
def declare (typeName : String) (fields : List (String × String)) : Attempt Manifest :=
  match duplicate? [] (fields.map Prod.fst) with
  | some field => throw (.type (.duplicateField field typeName))
  | none => pure ⟨typeName, fields⟩

end Manifest

namespace Tree

/-- An instance of a record type, with one value per field. -/
def ofFields (m : Manifest) (values : List (Tree ι)) : Attempt (Tree ι) :=
  if values.length = m.fields.length then pure (.record m values)
  else throw (.structural (.fieldCount m.typeName m.fields.length values.length))

/-- Puts an entry at its place among sorted ones, instead of an earlier one of its key. -/
def insertEntry (key : String) (t : Tree ι) : List (String × Tree ι) → List (String × Tree ι)
  | [] => [(key, t)]
  | (k, u) :: rest =>
    if key < k then (key, t) :: (k, u) :: rest
    else if key = k then (key, t) :: rest
    else (k, u) :: insertEntry key t rest

/-- A mapping of entries in any order, where later duplicates win. -/
def ofEntries (entries : List (String × Tree ι)) : Tree ι :=
  .map (entries.foldl (fun acc (k, t) => insertEntry k t acc) [])

def value? : Tree ι → Option Value
  | value v => some v
  | _ => none

def isEmpty : Tree ι → Bool
  | empty => true
  | _ => false

def field? (m : Manifest) (values : List (Tree ι)) (field : String) : Option (Tree ι) :=
  (m.position? field).bind (values[·]?)

/-- Values of a record after one field has been given another value. -/
def setField (m : Manifest) (values : List (Tree ι)) (field : String) (t : Tree ι) :
    List (Tree ι) :=
  match m.position? field with
  | some i => values.set i t
  | none => values

/-! ## Equality of contents -/

mutual

def equals : Tree ι → Tree ι → Bool
  | .value v, .value w => v.equals w
  | .list xs, .list ys => allEqual xs ys
  | .tuple xs, .tuple ys => allEqual xs ys
  | .map xs, .map ys => entriesEqual xs ys
  | .record m xs, .record n ys => m = n && allEqual xs ys
  | .foreign x, .foreign y => x.equals y
  | .empty, .empty => true
  | _, _ => false

def allEqual : List (Tree ι) → List (Tree ι) → Bool
  | [], [] => true
  | x :: xs, y :: ys => x.equals y && allEqual xs ys
  | _, _ => false

def entriesEqual : List (String × Tree ι) → List (String × Tree ι) → Bool
  | [], [] => true
  | (j, x) :: xs, (k, y) :: ys => j == k && x.equals y && entriesEqual xs ys
  | _, _ => false

end

end Tree

end ArrayDispatch
