import ArrayDispatch.Tree.Walk
import ArrayDispatch.Value.Depth

/-!
The walk over two trees of the same structure in step, depth first.
-/

namespace ArrayDispatch

open Walk

variable {ι σ : Type} [ForeignTypes ι] (t : TypeTable) (walker : String)
  (visit : Value → Value → Walk σ Unit)

/-- Visits the pairs of leaves of two values of at most `depth` levels. -/
def traverseValues : Nat → Value → Value → Walk σ Unit
  | depth, v, w => framed (.walk walker [t.typeName v, t.typeName w]) <|
    if v.tag ≠ w.tag then failed (.structural .types)
    else
      match v, w with
      | .array a, .array b => do
        let d ← ofAttempt (t.descriptor a.type)
        if d.isTensor then
          let x ← ofAttempt (d.tensorParts a)
          let y ← ofAttempt (d.tensorParts b)
          visit (.array x.1) (.array y.1)
        else if d.ndim ≤ 1 then visit v w
        else
          sameLength (d.lengthOf a.payload) (d.lengthOf b.payload)
          match depth with
          | 0 => failed .tooDeep
          | depth + 1 =>
            (List.range (d.lengthOf a.payload)).forM fun i => do
              let x ← itemAt d a i
              let y ← itemAt d b i
              traverseValues depth x y
      | _, _ => pure ()

mutual

/-- Visits the pairs of leaves of two trees, in order. The trees agree in kind and type of every
node, in lengths and in keys. -/
def traversePair : Tree ι → Tree ι → Walk σ Unit
  | .value v, .value w => traverseValues t walker visit v.depth v w
  | .list xs, .list ys => framed (.walk walker ["list", "list"]) do
    sameLength xs.length ys.length
    pairEach xs ys
  | .tuple xs, .tuple ys => framed (.walk walker ["tuple", "tuple"]) do
    sameLength xs.length ys.length
    pairEach xs ys
  | .map xs, .map ys => framed (.walk walker ["dict", "dict"]) <|
    if xs.map Prod.fst = ys.map Prod.fst then pairEntries xs ys else failed (.structural .keys)
  | .record m xs, .record n ys => framed (.walk walker [m.typeName, n.typeName]) <|
    if m = n then pairEach xs ys else failed (.structural .types)
  | .foreign x, .foreign y => framed (.walk walker [x.typeName, y.typeName]) <|
    if x.sameType y then pure () else failed (.structural .types)
  | .empty, .empty => pure ()
  | x, y => framed (.walk walker [t.nodeName x, t.nodeName y]) (failed (.structural .types))

def pairEach : List (Tree ι) → List (Tree ι) → Walk σ Unit
  | x :: xs, y :: ys => do
    traversePair x y
    pairEach xs ys
  | _, _ => pure ()

def pairEntries : List (String × Tree ι) → List (String × Tree ι) → Walk σ Unit
  | (_, x) :: xs, (_, y) :: ys => do
    traversePair x y
    pairEntries xs ys
  | _, _ => pure ()

end

end ArrayDispatch
