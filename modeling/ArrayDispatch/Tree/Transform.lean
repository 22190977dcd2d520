import ArrayDispatch.Tree.Walk
import ArrayDispatch.Value.Depth

/-!
The walk that rebuilds a tree: leaves get new types and contents, everything else stays.
-/

namespace ArrayDispatch

open Walk

/-- What a transformation does with arrays and leaves. -/
structure Transformer (σ : Type) where
  /-- type of the rebuilt array, `none` to decline it -/
  retype : TypeKey → StateM σ (Option TypeKey)
  /-- what is made for the first array of the second, a zeroed one of the new type -/
  fill : Site → Object → Object → Walk σ Object

/-- Keeps all types, and makes new contents of the old ones. -/
def Transformer.ofLeaves {σ : Type} (f : Object → Walk σ Payload) : Transformer σ :=
  ⟨fun key => pure (some key), fun _ source target => target.withPayload <$> f source⟩

variable {ι σ : Type} [ForeignTypes ι] (t : TypeTable) (walker : String) (f : Transformer σ)

def transformTensor (d target : Descriptor) (site : Site) (a : Object) : Walk σ Object := do
  let (source, shape) ← ofAttempt (d.tensorParts a)
  let backing ← ofAttempt (target.allocBacking (site.child 0) shape)
  let out ← f.fill (site.child 2) source backing
  pure ⟨site, target.key, .tensor (out.copyAt backing.id) shape⟩

def storeNode (target : Descriptor) (p : Payload) (i : Nat) : Tree ι → Walk σ Payload
  | .value v => liftM (t.store target p i v)
  | node => failed (.itemAssign i (t.nodeName node))

/-- Rebuilds the first `n` elements of an array one by one, in place of those that `p` holds. -/
def transformItems (d target : Descriptor) (a : Object) (n : Nat) (p : Payload)
    (transformItem : Nat → Value → Walk σ (Tree ι)) : Walk σ Payload :=
  (List.range n).foldlM (fun p i => do
    let item ← itemAt d a i
    let node ← transformItem i item
    storeNode t target p i node) p

/-- Rebuilds an array that is no tensor: at once if it is a leaf, else element by element. -/
def transformPlain (d target : Descriptor) (site : Site) (a : Object)
    (transformItem : Nat → Value → Walk σ (Tree ι)) : Walk σ Object :=
  let n := d.lengthOf a.payload
  let zeroed := target.zeroed (site.child 0) n
  if d.ndim ≤ 1 then f.fill (site.child 2) a zeroed
  else zeroed.withPayload <$> transformItems t d target a n zeroed.payload transformItem

def transformArray (d target : Descriptor) (site : Site) (a : Object)
    (transformItem : Nat → Value → Walk σ (Tree ι)) : Walk σ Object :=
  if d.isTensor then transformTensor f d target site a
  else transformPlain t f d target site a transformItem

/-- Rebuilds an array as one of the type that its own is mapped to, or declines it. -/
def transformAs (d : Descriptor) (site : Site) (a : Object)
    (transformItem : Nat → Value → Walk σ (Tree ι)) : Option TypeKey → Walk σ (Tree ι)
  | none => pure .empty
  | some key => do
    let target ← ofAttempt (t.descriptor key)
    let out ← transformArray t f d target site a transformItem
    pure (.value (.array (out.copyAt site)))

/-- Rebuilds the leaves of a value of less than `depth` levels; new objects are made at the site. -/
def transformValue : Nat → Site → Value → Walk σ (Tree ι)
  | 0, _, _ => failed .tooDeep
  | depth + 1, site, v => framed (.walk walker [t.typeName v]) <|
    match v with
    | .scalar _ => pure (.value v)
    | .array a => do
      let d ← ofAttempt (t.descriptor a.type)
      let answer ← f.retype d.key
      transformAs t f d site a (fun i => transformValue depth ((site.child 1).child i)) answer

mutual

/-- Rebuilds a tree. Containers keep their kind, keys and record type; scalars and foreign values
stay as they are. -/
def transform : Site → Tree ι → Walk σ (Tree ι)
  | site, .value v => transformValue t walker f (v.depth + 1) site v
  | site, .list items =>
    framed (.walk walker ["list"]) (Tree.list <$> transformAll site 0 items)
  | site, .tuple items =>
    framed (.walk walker ["tuple"]) (Tree.tuple <$> transformAll site 0 items)
  | site, .map entries =>
    framed (.walk walker ["dict"]) (Tree.map <$> transformEntries site 0 entries)
  | site, .record m values =>
    framed (.walk walker [m.typeName]) (Tree.record m <$> transformAll site 0 values)
  | _, .foreign x => pure (.foreign x)
  | _, .empty => pure .empty

def transformAll (site : Site) : Nat → List (Tree ι) → Walk σ (List (Tree ι))
  | _, [] => pure []
  | i, x :: xs => do
    let y ← transform (site.child i) x
    let ys ← transformAll site (i + 1) xs
    pure (y :: ys)

def transformEntries (site : Site) : Nat → List (String × Tree ι) → Walk σ (List (String × Tree ι))
  | _, [] => pure []
  | i, (k, x) :: xs => do
    let y ← transform (site.child i) x
    let ys ← transformEntries site (i + 1) xs
    pure ((k, y) :: ys)

end

end ArrayDispatch
