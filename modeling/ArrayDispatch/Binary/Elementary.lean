import ArrayDispatch.Binary.Arithmetic

/-!
Elementary functions. They are those of the platform at the datum's own precision; the error
function is a polynomial and an exponential.
-/

namespace ArrayDispatch.Binary

variable {f : Format}

/-- A platform function of either precision as a function on data. -/
def platform (onSingle : Float32 → Float32) (onDouble : Float → Float) :
    {f : Format} → Binary f → Binary f
  | .single, x => ofBits (onSingle (.ofBits x.toBits.toUInt32)).toBits.toNat
  | .double, x => ofBits (onDouble (.ofBits x.toBits.toUInt64)).toBits.toNat

def cbrt (x : Binary f) : Binary f := x.platform Float32.cbrt Float.cbrt
def exp (x : Binary f) : Binary f := x.platform Float32.exp Float.exp
def exp2 (x : Binary f) : Binary f := x.platform Float32.exp2 Float.exp2
def log (x : Binary f) : Binary f := x.platform Float32.log Float.log
def log2 (x : Binary f) : Binary f := x.platform Float32.log2 Float.log2
def sin (x : Binary f) : Binary f := x.platform Float32.sin Float.sin
def cos (x : Binary f) : Binary f := x.platform Float32.cos Float.cos
def tan (x : Binary f) : Binary f := x.platform Float32.tan Float.tan
def asin (x : Binary f) : Binary f := x.platform Float32.asin Float.asin
def acos (x : Binary f) : Binary f := x.platform Float32.acos Float.acos
def atan (x : Binary f) : Binary f := x.platform Float32.atan Float.atan
def sinh (x : Binary f) : Binary f := x.platform Float32.sinh Float.sinh
def cosh (x : Binary f) : Binary f := x.platform Float32.cosh Float.cosh
def tanh (x : Binary f) : Binary f := x.platform Float32.tanh Float.tanh
def asinh (x : Binary f) : Binary f := x.platform Float32.asinh Float.asinh
def acosh (x : Binary f) : Binary f := x.platform Float32.acosh Float.acosh
def atanh (x : Binary f) : Binary f := x.platform Float32.atanh Float.atanh

/-- Angle of the point `(x, y)`. -/
def atan2 : {f : Format} → (y x : Binary f) → Binary f
  | .single, y, x =>
    ofBits (Float32.atan2 (.ofBits y.toBits.toUInt32) (.ofBits x.toBits.toUInt32)).toBits.toNat
  | .double, y, x =>
    ofBits (Float.atan2 (.ofBits y.toBits.toUInt64) (.ofBits x.toBits.toUInt64)).toBits.toNat

def one : Binary f := ofInt 1

/-- The decimal fraction `num / 10 ^ places`. -/
def ofDecimal (neg : Bool) (num places : Nat) : Binary f :=
  ofMagnitude neg (f.nearest num (Nat.pow 10 places) 0)

/-- Coefficients of the polynomial in `erf`, highest power first. -/
def erfCoefficients : List (Binary .double) :=
  [ofDecimal false 1061405429 9, ofDecimal true 1453152027 9, ofDecimal false 1421413741 9,
    ofDecimal true 284496736 9, ofDecimal false 254829592 9]

/-- The error function by a polynomial in `1 / (1 + p |x|)` times `exp (-x * x)`; the absolute
error is below `1.5e-7`. -/
def erfDouble (x : Binary .double) : Binary .double :=
  let sign := if x.compare? zero = some .lt then one.neg else one
  let a := x.abs
  let t := one.div (one.add ((ofDecimal false 3275911 7).mul a))
  let poly := (erfCoefficients.foldl (fun acc c => (acc.mul t).add c) zero).mul t
  sign.mul (one.sub (poly.mul (a.neg.mul a).exp))

/-- The error function, computed in double precision. -/
def erf (x : Binary f) : Binary f := (erfDouble (x.convert .double)).convert f

end ArrayDispatch.Binary
