import ArrayDispatch.Shape
import ArrayDispatch.Types.Kernel

/-!
Descriptors of registered array types: layout and extent, the table of operations, the element
accessors and the mask type. A descriptor holds that of its element or backing type, so whatever
follows the layout recurses on the descriptor itself.
-/

namespace ArrayDispatch

/-- Number of elements on the top level of every instance of a type. -/
inductive Extent where
  | fixed (n : Nat)
  | dynamic
deriving DecidableEq, Repr

namespace Extent

def fixed? : Extent → Option Nat
  | fixed n => some n
  | dynamic => none

def text : Extent → String
  | fixed n => toString n
  | dynamic => "dynamic"

end Extent

/-- How a type carries out one operation. -/
inductive OpEntry where
  | native (k : Kernel)
  /-- position by position, through the element-level counterpart -/
  | generic
  | unsupported

namespace OpEntry

def text : OpEntry → String
  | native k => "Native(NativeKernel(" ++ toString k.arity ++ "))"
  | generic => "Default"
  | unsupported => "NotImplemented"

end OpEntry

/-- Properties that restrict which operations make sense. -/
structure TypeFlags where
  isMatrix : Bool
  isComplex : Bool
  isQuaternion : Bool
  isPointer : Bool
deriving DecidableEq, Repr

namespace TypeFlags

def none : TypeFlags := ⟨false, false, false, false⟩

/-- Such elements can be equal, but none is less than another. -/
def forbidsOrdering (f : TypeFlags) : Bool :=
  f.isMatrix || f.isComplex || f.isQuaternion || f.isPointer

end TypeFlags

/-- Element accessors of a type: reading, storing (or handing the value back), and the length of
an instance of dynamic extent. -/
structure Access where
  item? : Payload → Nat → Option Value
  setItem : Payload → Nat → Value → Except Value Payload
  length : Payload → Nat

/-- The accessors of the payload itself. -/
def Access.stock : Access := ⟨Payload.get?, Payload.set, Payload.length⟩

/-- What a type declares beside its layout. -/
structure TypeInfo where
  name : String
  key : TypeKey
  mask : Option TypeKey
  ops : Op → OpEntry
  flags : TypeFlags
  access : Access

/-- A registered array type. -/
inductive Descriptor where
  /-- elements are scalars of one kind -/
  | flat (info : TypeInfo) (kind : Kind) (extent : Extent)
  /-- elements are instances of another type -/
  | nested (info : TypeInfo) (element : Descriptor) (extent : Extent)
  /-- an array of another type, read through a shape -/
  | tensor (info : TypeInfo) (backing : Descriptor)

namespace Descriptor

def info : Descriptor → TypeInfo
  | flat i .. => i
  | nested i .. => i
  | tensor i _ => i

def name (d : Descriptor) : String := d.info.name

def key (d : Descriptor) : TypeKey := d.info.key

def extent : Descriptor → Extent
  | flat _ _ e => e
  | nested _ _ e => e
  | tensor .. => .dynamic

/-- Nesting depth: 1 for flat types, one more per level; a tensor has that of its backing. -/
def ndim : Descriptor → Nat
  | flat .. => 1
  | nested _ e _ => e.ndim + 1
  | tensor _ b => b.ndim

def leafKind : Descriptor → Kind
  | flat _ k _ => k
  | nested _ e _ => e.leafKind
  | tensor _ b => b.leafKind

def isTensor : Descriptor → Bool
  | tensor .. => true
  | _ => false

/-- Type of the masks that comparisons produce; a type without one is its own. -/
def maskType (d : Descriptor) : TypeKey := d.info.mask.getD d.key

def op (d : Descriptor) (op : Op) : OpEntry := d.info.ops op

def item? (d : Descriptor) (p : Payload) (i : Nat) : Option Value := d.info.access.item? p i

def setItem (d : Descriptor) (p : Payload) (i : Nat) (v : Value) : Except Value Payload :=
  d.info.access.setItem p i v

/-- Number of elements on the top level of an instance. -/
def lengthOf (d : Descriptor) (p : Payload) : Nat :=
  match d.extent with
  | .fixed n => n
  | .dynamic => d.info.access.length p

/-- Result storage of `n` elements. The elements of a nested type are scalar placeholders, all of
which are to be overwritten. -/
def alloc (site : Site) : Descriptor → Nat → Payload
  | flat _ k _, n => .zeros k n
  | nested _ e _, n => .nested (List.replicate n (.scalar (.zero e.leafKind)))
  | tensor _ b, n => .tensor ⟨site.child 0, b.key, b.alloc (site.child 0) n⟩ [n]

def allocZero : Descriptor → Site → Nat → Payload
  | flat _ k _, _, n => .zeros k n
  | nested _ e _, site, n => .nested ((List.range n).map fun i =>
      .array ⟨site.child i, e.key, e.allocZero (site.child i) (e.extent.fixed?.getD 0)⟩)
  | tensor _ b, site, n => .tensor ⟨site.child 0, b.key, b.allocZero (site.child 0) n⟩ [n]

/-- Backing array of a tensor of the given shape, all zero. -/
def allocBacking (d : Descriptor) (site : Site) (shape : List Nat) : Attempt Object :=
  match d with
  | tensor _ b => (Shape.count shape).map fun n => ⟨site, b.key, b.allocZero site n⟩
  | d => throw (.notTensor d.name)

def allocTensor (d : Descriptor) (site : Site) (shape : List Nat) : Attempt Payload :=
  (d.allocBacking (site.child 0) shape).map (.tensor · shape)

/-- A copy of `a` brought to length `n`: flat arrays are cut or filled up, all others are made
anew, and types of fixed extent leave it as it is. -/
def resized (d : Descriptor) (site : Site) (a : Object) (n : Nat) : Object :=
  match d, d.extent with
  | _, .fixed _ => a.copyAt site
  | flat .., _ => ⟨site, a.type, a.payload.resize n⟩
  | d, _ => ⟨site, d.key, d.allocZero site n⟩

/-- An instance to go with an array of length `n`, all zero: of the extent of the type, or else made
empty and brought to that length. -/
def zeroed (d : Descriptor) (site : Site) (n : Nat) : Object :=
  d.resized site ⟨site, d.key, d.allocZero site (d.extent.fixed?.getD 0)⟩ n

def tensorParts (d : Descriptor) (a : Object) : Attempt (Object × List Nat) :=
  match a.payload.tensor? with
  | some parts => pure parts
  | none => throw (.notTensor d.name)

end Descriptor

end ArrayDispatch
