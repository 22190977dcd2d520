import ArrayDispatch.Binary.Basic

/-!
Element kinds of flat arrays and their order of promotion.
-/

namespace ArrayDispatch

inductive IntType where
  | int32
  | uint32
  | int64
  | uint64
deriving DecidableEq, Repr, Inhabited

namespace IntType

def width : IntType → Nat
  | int32 | uint32 => 32
  | int64 | uint64 => 64

def signed : IntType → Bool
  | int32 | int64 => true
  | uint32 | uint64 => false

/-- The 64-bit type of the same signedness. -/
def widest (t : IntType) : IntType :=
  if t.signed then int64 else uint64

def low (t : IntType) : Int :=
  if t.signed then -Nat.pow 2 (t.width - 1) else 0

def high (t : IntType) : Int :=
  if t.signed then Nat.pow 2 (t.width - 1) - 1 else Nat.pow 2 t.width - 1

/-- A machine word, read as signed or unsigned by its type. -/
abbrev Word (t : IntType) : Type := BitVec t.width

/-- The integer that a word stands for. -/
def toInt (t : IntType) (x : t.Word) : Int :=
  if t.signed then x.toInt else x.toNat

/-- The word of an integer, which wraps around modulo `2 ^ width`. -/
def ofInt (t : IntType) (z : Int) : t.Word := BitVec.ofInt t.width z

@[simp] theorem ofInt_toInt (t : IntType) (x : t.Word) : t.ofInt (t.toInt x) = x := by
  unfold ofInt toInt
  split
  · exact BitVec.ofInt_toInt
  · simp

end IntType

inductive Kind where
  | bool
  | integer (t : IntType)
  | float (f : Format)
deriving DecidableEq, Repr, Inhabited

namespace Kind

def name : Kind → String
  | bool => "bool"
  | integer .int32 => "int32"
  | integer .uint32 => "uint32"
  | integer .int64 => "int64"
  | integer .uint64 => "uint64"
  | float .single => "float32"
  | float .double => "float64"

/-- Place in the order of promotion: where two kinds meet, the higher one wins. -/
def rank : Kind → Nat
  | bool => 0
  | integer .int32 => 1
  | integer .uint32 => 2
  | integer .int64 => 3
  | integer .uint64 => 4
  | float .single => 5
  | float .double => 6

def promote (a b : Kind) : Kind :=
  if a.rank < b.rank then b else a

theorem rank_inj {a b : Kind} : a.rank = b.rank ↔ a = b := by
  constructor
  · rcases a with _ | (_ | _) | (_ | _) <;> rcases b with _ | (_ | _) | (_ | _) <;> simp [rank]
  · rintro rfl
    rfl

theorem rank_promote (a b : Kind) : (a.promote b).rank = max a.rank b.rank := by
  unfold promote
  split <;> omega

theorem promote_comm (a b : Kind) : a.promote b = b.promote a := by
  rw [← rank_inj, rank_promote, rank_promote, Nat.max_comm]

theorem promote_assoc (a b c : Kind) : (a.promote b).promote c = a.promote (b.promote c) := by
  simp only [← rank_inj, rank_promote, Nat.max_assoc]

def isFloat : Kind → Bool
  | float _ => true
  | _ => false

def isInteger : Kind → Bool
  | integer _ => true
  | _ => false

@[reducible] def Elem : Kind → Type
  | bool => Bool
  | integer t => t.Word
  | float f => Binary f

def zero : (k : Kind) → k.Elem
  | bool => false
  | integer t => t.ofInt 0
  | float _ => Binary.zero

instance (k : Kind) : DecidableEq k.Elem :=
  match k with
  | bool => inferInstanceAs (DecidableEq Bool)
  | integer t => inferInstanceAs (DecidableEq (BitVec t.width))
  | float f => inferInstanceAs (DecidableEq (Binary f))

instance (k : Kind) : Inhabited k.Elem := ⟨k.zero⟩

end Kind

end ArrayDispatch
