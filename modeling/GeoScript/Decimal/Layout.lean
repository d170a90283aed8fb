import GeoScript.Decimal.Shortest

/-!
# Number texts

**Digits and layout.** The digits of a number text come from `shortest`; a `Format` only decides
how they are laid out: where positional notation ends, whether a whole number keeps `.0`, how an
exponent is written, and what stands for the values that are not finite.

**Positional text.** `positional` writes `d · 10 ^ k` without an exponent: zeros are added on the
right when `k ≥ 0`, and the point is moved left, with leading zeros where needed, when `k < 0`.
-/

namespace GeoScript.Decimal

/-- How the digits of a number are written down. -/
structure Format where
  /-- Which of two equally near shortest decimals is written. -/
  tie : Tie
  /-- The leading-digit exponents `e` with `low ≤ e < high` are written positionally; `none` sets
  no bound. -/
  low : Option Int
  high : Option Int
  /-- Whether a whole number in positional notation ends in `.0`. -/
  pointZero : Bool
  /-- Whether an exponent that is not negative carries a `+`. -/
  plusSign : Bool
  nan : String
  infinity : String
  negInfinity : String

/-- Numbers in results and messages: never an exponent, never a point without need. -/
def Format.plain : Format where
  tie := .up
  low := none
  high := none
  pointZero := false
  plusSign := false
  nan := "NaN"
  infinity := "inf"
  negInfinity := "-inf"

/-- The decimal digits of a natural number, most significant first. -/
def digits (n : Nat) : List Char := Nat.toDigits 10 n

/-- `count` zeros. -/
def zeros (count : Nat) : List Char := List.replicate count '0'

/-- The exponent of the leading digit of a decimal. -/
def Scientific.leading (s : Scientific) : Int :=
  s.exponent + (digits s.significand).length - 1

/-- A decimal without an exponent part. -/
def Scientific.positional (s : Scientific) (pointZero : Bool) : List Char :=
  let ds := digits s.significand
  match s.exponent with
  | .ofNat e => ds ++ zeros e ++ (if pointZero then ['.', '0'] else [])
  | .negSucc e =>
    let places := e + 1
    if places < ds.length then
      ds.take (ds.length - places) ++ '.' :: ds.drop (ds.length - places)
    else
      '0' :: '.' :: zeros (places - ds.length) ++ ds

/-- A decimal as one digit, the others after a point, and the exponent of that first digit. -/
def Scientific.exponential (s : Scientific) (plusSign : Bool) : List Char :=
  let ds := digits s.significand
  let mark := match s.leading with
    | .ofNat e => (if plusSign then ['+'] else []) ++ digits e
    | .negSucc e => '-' :: digits (e + 1)
  ds.take 1 ++ (if ds.length ≤ 1 then [] else '.' :: ds.drop 1) ++ 'e' :: mark

/-- Whether a number whose leading digit has exponent `e` is written positionally. -/
def Format.isPositional (f : Format) (e : Int) : Bool :=
  f.low.all (· ≤ e) && f.high.all (e < ·)

/-- The text of a double that is not negative. -/
def Format.unsigned (f : Format) (mantissa : Nat) (exponent : Int) : List Char :=
  if mantissa = 0 then
    '0' :: (if f.pointZero then ['.', '0'] else [])
  else
    let s := shortest f.tie mantissa exponent
    if f.isPositional s.leading then s.positional f.pointZero else s.exponential f.plusSign

def Format.magnitude (f : Format) : Magnitude → List Char
  | .nan => f.nan.toList
  | .infinite false => f.infinity.toList
  | .infinite true => f.negInfinity.toList
  | .finite b => (if b.negative then ['-'] else []) ++ f.unsigned b.mantissa b.exponent

/-- The text of a double. -/
def Format.text (f : Format) (x : Float) : String :=
  String.ofList (f.magnitude (.ofFloat x))

/-- The text of a number as results and messages show it. -/
def text (x : Float) : String := Format.plain.text x

end GeoScript.Decimal
