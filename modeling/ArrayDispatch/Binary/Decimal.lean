import ArrayDispatch.Binary.Basic

/-!
Shortest decimal text: the fewest digits that read back as the same datum, and of those the
nearest to it.
-/

namespace ArrayDispatch

/-- The number `digits * 10 ^ exp`. -/
structure Decimal where
  digits : Nat
  exp : Int
deriving DecidableEq, Repr

namespace Decimal

/-- The value `m * 2 ^ e` and the ends of the interval that rounds to it, all in quarters of the
last place. -/
structure Interval where
  low : Nat
  mid : Nat
  high : Nat
  exp : Int
  closed : Bool

/-- The interval of magnitude number `n`. Below a power of two the spacing is halved; the ends
belong to it if the significand is even. -/
def interval (f : Format) (n : Nat) : Interval :=
  let m := f.significand n
  let below := if m = Nat.pow 2 f.fractionBits then 1 else 2
  ⟨4 * m - below, 4 * m, 4 * m + 2, f.exponent n - 2, m % 2 = 0⟩

/-- The grid point of spacing `10 ^ k` that reads back, if one of the value's two neighbours on
that grid does: the nearer one, and the upper one on a tie. -/
def onGrid (i : Interval) (k : Int) : Option Decimal :=
  let num := Nat.pow 2 i.exp.toNat * Nat.pow 10 (-k).toNat
  let den := Nat.pow 2 (-i.exp).toNat * Nat.pow 10 k.toNat
  let q := i.mid * num / den
  let within (a b : Nat) : Bool := a < b || i.closed && a == b
  let down := within (i.low * num) (q * den)
  let up := within ((q + 1) * den) (i.high * num)
  if up && (!down || (2 * q + 1) * den ≤ 2 * (i.mid * num)) then some ⟨q + 1, k⟩
  else if down then some ⟨q, k⟩
  else none

/-- An exponent `k` with `10 ^ k` above every number of fewer than `bits` bits. -/
def gridAbove (bits : Int) : Int :=
  if 0 ≤ bits then bits * 31 / 100 + 1 else -(-bits * 3 / 10)

/-- Shortest decimal of magnitude number `n`, looked for from coarse grids to fine ones. -/
def shortest (f : Format) (n : Nat) : Decimal :=
  let i := interval f n
  let top := gridAbove ((i.high.log2 : Int) + 1 + i.exp)
  ((List.range 64).findSome? fun (j : Nat) => onGrid i (top - j)).getD ⟨0, 0⟩

def digitText (d : Decimal) : List Char := Nat.toDigits 10 d.digits

/-- Positional text with at least `places` digits after the point, and no point before none. -/
def positional (places : Nat) (d : Decimal) : String :=
  let ds := d.digitText
  let whole := if 0 ≤ d.exp then ds ++ List.replicate d.exp.toNat '0'
    else ds.take (ds.length - (-d.exp).toNat)
  let fraction := if 0 ≤ d.exp then []
    else List.replicate ((-d.exp).toNat - ds.length) '0' ++ ds.drop (ds.length - (-d.exp).toNat)
  let fraction := fraction ++ List.replicate (places - fraction.length) '0'
  let whole := if whole.isEmpty then ['0'] else whole
  String.ofList (if fraction.isEmpty then whole else whole ++ '.' :: fraction)

end Decimal

namespace Binary

variable {f : Format}

/-- Text of a datum from the text of its magnitude. -/
def textWith (finite : Nat → String) : Binary f → String
  | .nan => "NaN"
  | .number neg mag =>
    (if neg then "-" else "") ++ if (mag : Nat) = f.infinity then "inf" else finite mag

/-- Positional text, whole numbers without a point. -/
def plainText (x : Binary f) : String :=
  x.textWith fun n => if n = 0 then "0" else (Decimal.shortest f n).positional 0

end Binary

end ArrayDispatch
