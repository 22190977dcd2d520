/-!
Foreign values: leaves of a tree that belong to the embedding program. The walkers know the identity
and the name of their type and look no further; their text and their equality are the program's own.
-/

namespace ArrayDispatch

/-- The foreign types of an embedding program, told apart by `ι`. Equality within a type need not be
reflexive. -/
class ForeignTypes (ι : Type) where
  [decEq : DecidableEq ι]
  name : ι → String
  Content : ι → Type
  text {type : ι} : Content type → String
  equals {type : ι} : Content type → Content type → Bool

instance {ι : Type} [ForeignTypes ι] : DecidableEq ι := ForeignTypes.decEq

/-- A value of a type that the walkers do not look into. -/
structure Foreign (ι : Type) [ForeignTypes ι] where
  type : ι
  content : ForeignTypes.Content type

namespace Foreign

variable {ι : Type} [ForeignTypes ι]

def typeName (x : Foreign ι) : String := ForeignTypes.name x.type

def text (x : Foreign ι) : String := ForeignTypes.text x.content

def sameType (x y : Foreign ι) : Bool := x.type = y.type

/-- Values of different types differ. -/
def equals (x y : Foreign ι) : Bool :=
  if h : y.type = x.type then ForeignTypes.equals x.content (h ▸ y.content) else false

end Foreign

end ArrayDispatch
