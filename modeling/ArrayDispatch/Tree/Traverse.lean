import ArrayDispatch.Tree.Walk
import ArrayDispatch.Value.Depth

/-!
The walk over one tree, depth first. Leaves are arrays of scalars; tensors count by their backing
array, and arrays of arrays are walked element by element.
-/

namespace ArrayDispatch

open Walk

variable {ι σ : Type} [ForeignTypes ι] (t : TypeTable) (walker : String)
  (visit : Value → Walk σ Unit)

/-- Visits the leaves of a value of at most `depth` levels. -/
def traverseValue : Nat → Value → Walk σ Unit
  | depth, v => framed (.walk walker [t.typeName v]) <|
    match v with
    | .scalar _ => pure ()
    | .array a => do
      let d ← ofAttempt (t.descriptor a.type)
      if d.isTensor then visit (.array (← ofAttempt (d.tensorParts a)).1)
      else if d.ndim ≤ 1 then visit v
      else
        match depth with
        | 0 => failed .tooDeep
        | depth + 1 =>
          (List.range (d.lengthOf a.payload)).forM fun i => do
            traverseValue depth (← itemAt d a i)

mutual

def traverse : Tree ι → Walk σ Unit
  | .value v => traverseValue t walker visit v.depth v
  | .list items => framed (.walk walker ["list"]) (traverseAll items)
  | .tuple items => framed (.walk walker ["tuple"]) (traverseAll items)
  | .map entries => framed (.walk walker ["dict"]) (traverseEntries entries)
  | .record m values => framed (.walk walker [m.typeName]) (traverseAll values)
  | .foreign _ => pure ()
  | .empty => pure ()

def traverseAll : List (Tree ι) → Walk σ Unit
  | [] => pure ()
  | x :: xs => do
    traverse x
    traverseAll xs

def traverseEntries : List (String × Tree ι) → Walk σ Unit
  | [] => pure ()
  | (_, x) :: xs => do
    traverse x
    traverseEntries xs

end

end ArrayDispatch
