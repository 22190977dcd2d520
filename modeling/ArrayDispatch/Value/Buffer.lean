import ArrayDispatch.Scalar.Eval

/-!
Flat buffers: the elements of one kind that an array of scalars holds.
-/

namespace ArrayDispatch

structure Buffer where
  kind : Kind
  elems : List kind.Elem
deriving DecidableEq

namespace Buffer

instance : Inhabited Buffer := ⟨⟨.bool, []⟩⟩

def length (b : Buffer) : Nat := b.elems.length

def zeros (k : Kind) (n : Nat) : Buffer := ⟨k, List.replicate n k.zero⟩

def get? (b : Buffer) (i : Nat) : Option Scalar := b.elems[i]?.map (⟨b.kind, ·⟩)

/-- Stores a scalar, converted to the kind of the buffer. -/
def set (b : Buffer) (i : Nat) (s : Scalar) : Buffer :=
  ⟨b.kind, b.elems.set i (s.store b.kind)⟩

/-- The elements at the given positions, `none` if one is out of range. -/
def gather? (b : Buffer) (index : List Nat) : Option Buffer :=
  (index.mapM (b.elems[·]?)).map (⟨b.kind, ·⟩)

def resize (b : Buffer) (n : Nat) : Buffer :=
  ⟨b.kind, b.elems.take n ++ List.replicate (n - b.length) b.kind.zero⟩

def toList (b : Buffer) : List Scalar := b.elems.map (⟨b.kind, ·⟩)


/-- Equality of kinds and of all values. -/
def equals (a b : Buffer) : Bool :=
  a.kind = b.kind && a.length == b.length &&
    (a.toList.zip b.toList).all fun (x, y) => x.equals y

@[simp] theorem length_zeros (k : Kind) (n : Nat) : (zeros k n).length = n := by
  simp [length, zeros]

@[simp] theorem length_set (b : Buffer) (i : Nat) (s : Scalar) :
    (b.set i s).length = b.length := by
  simp [length, set]

@[simp] theorem kind_set (b : Buffer) (i : Nat) (s : Scalar) : (b.set i s).kind = b.kind := rfl

theorem get?_set_self {b : Buffer} {i : Nat} (h : i < b.length) (s : Scalar) :
    (b.set i s).get? i = some ⟨b.kind, s.store b.kind⟩ := by
  change Option.map _ (b.elems.set i (s.store b.kind))[i]? = _
  rw [List.getElem?_set_self h]
  rfl

theorem get?_set_ne {b : Buffer} {i j : Nat} (h : i ≠ j) (s : Scalar) :
    (b.set i s).get? j = b.get? j := by
  change Option.map _ (b.elems.set i (s.store b.kind))[j]? = _
  rw [List.getElem?_set_ne h]
  rfl

end Buffer

end ArrayDispatch
