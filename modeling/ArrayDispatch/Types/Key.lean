/-!
Keys of registered array types.
-/

namespace ArrayDispatch

/-- Identity of a registered array type: its place in the type table. -/
structure TypeKey where
  index : Nat
deriving DecidableEq, Repr, Inhabited

namespace TypeKey

/-- Key of a place in the table. Keys have 32 bits. -/
def ofIndex (i : Nat) : TypeKey := ⟨i % 0x100000000⟩

def text (k : TypeKey) : String := "#" ++ toString k.index

end TypeKey

end ArrayDispatch
