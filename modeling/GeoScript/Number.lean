import GeoScript.Decimal.Binary

/-!
# Operations on doubles

**Exact ones.** Remainders, whole numbers and conversions to machine integers are computed from
the integer view of a double, so no intermediate result is rounded.

**Elementary functions** that the platform does not offer are built from those it does, by
formulas that keep their precision near zero.
-/

namespace GeoScript.Number

open Decimal (Magnitude Binary)

def nan : Float := 0 / 0

def infinity : Float := 1 / 0

/-- The part before the point, with the sign of the number. -/
def truncate (x : Float) : Float :=
  if x < 0 then x.ceil else x.floor

/-- The remainder of a division whose quotient is rounded toward zero; it has the sign of `x`. -/
def remainder (x y : Float) : Float :=
  match Magnitude.ofFloat x, Magnitude.ofFloat y with
  | .finite a, .finite b =>
    if b.mantissa = 0 then nan else (a.remainder b).toFloat
  | .finite _, .infinite _ => x
  | _, _ => nan

/-- The integer that a double stands for, when it stands for one. -/
def whole? (x : Float) : Option Int :=
  match Magnitude.ofFloat x with
  | .finite b => if b.isWhole then some b.truncate else none
  | _ => none

/-- The nearest integer of 64 bits with a sign, from `-2 ^ 63` to `2 ^ 63 - 1`. -/
def clamp64 (n : Int) : Int :=
  max (-9223372036854775808) (min n 9223372036854775807)

/-- The number of integers of 32 bits, `2 ^ 32`. -/
def modulus32 : Nat := 4294967296

/-- The integer of 32 bits with a sign that agrees with the integer part modulo `2 ^ 32`. -/
def wrap32 (x : Float) : Int :=
  match Magnitude.ofFloat x with
  | .finite b => b.truncate.bmod modulus32
  | _ => 0

/-- The product of two integers of 32 bits, wrapped around. -/
def multiply32 (x y : Float) : Float :=
  Float.ofInt ((wrap32 x * wrap32 y).bmod modulus32)

/-- The nearest integer; halves go up. -/
def roundHalfUp (x : Float) : Float :=
  if x.isFinite then
    let floor := x.floor
    if x - floor ≥ 0.5 then floor + 1 else floor
  else
    x

/-- The nearest number of single precision. -/
def single (x : Float) : Float := x.toFloat32.toFloat

/-- `-1`, `1`, or the number itself where it has no sign. -/
def sign (x : Float) : Float :=
  if x < 0 then -1 else if x > 0 then 1 else x

def copySign (size sign : Float) : Float :=
  let negative := match Magnitude.ofFloat sign with
    | .finite b => b.negative
    | .infinite negative => negative
    | .nan => false
  if negative then -size.abs else size.abs

/-- The larger of two numbers; not a number if either is not. -/
def larger (x y : Float) : Float :=
  if x.isNaN || y.isNaN then nan else if x < y then y else x

/-- The smaller of two numbers; not a number if either is not. -/
def smaller (x y : Float) : Float :=
  if x.isNaN || y.isNaN then nan else if y < x then y else x

/-- `e ^ x - 1`. The rounding error of `e ^ x` is made up for by the same error in its logarithm.
Where `e ^ x` is so large that taking one away changes nothing, it is the answer. -/
def expm1 (x : Float) : Float :=
  let u := x.exp
  let d := u - 1
  if u == 1 then x
  else if d == u then u
  else if d == -1 then -1
  else d * (x / u.log)

/-- `log (1 + x)`. The rounding error of `1 + x` is made up for by a factor close to one. Where `x`
is so large that adding one changes nothing, its logarithm is the answer. -/
def log1p (x : Float) : Float :=
  let u := 1 + x
  if u == 1 then x
  else if u == x then u.log
  else u.log * (x / (u - 1))

/-- The natural logarithm of two. -/
def ln2 : Float := 0.6931471805599453

/-- For sizes above `2 ^ 28` the square of a number and its neighbours `± 1` are the same, so
both inverse hyperbolic functions below are the logarithm of twice the size. -/
def largeSize : Float := 268435456

def asinh (x : Float) : Float :=
  let size := x.abs
  let inverse := 1 / size
  copySign (if size > largeSize then size.log + ln2
    else log1p (size + size / ((1 + inverse * inverse).sqrt + inverse))) x

def acosh (x : Float) : Float :=
  if x < 1 then nan
  else if x > largeSize then x.log + ln2
  else (x + (x - 1).sqrt * (x + 1).sqrt).log

def atanh (x : Float) : Float :=
  0.5 * log1p (2 * x / (1 - x))

end GeoScript.Number
