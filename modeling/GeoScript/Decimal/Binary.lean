/-!
# Doubles as integers times powers of two

**The view.** A finite double is `± mantissa · 2 ^ exponent` with natural `mantissa`. Everything
exact this library computes about a double (its shortest text, its remainder, its integer part)
starts from this view and stays in integer arithmetic.

**Uniqueness.** The exponent is the one of the stored format: `-1074` for zero and the subnormal
doubles, and otherwise such that `2 ^ 52 ≤ mantissa < 2 ^ 53`.
-/

namespace GeoScript.Decimal

/-- The value `mantissa * 2 ^ exponent`, negated when `negative` holds. -/
structure Binary where
  negative : Bool
  mantissa : Nat
  exponent : Int
  deriving Repr, DecidableEq, Inhabited

/-- What a double stands for. -/
inductive Magnitude where
  | nan
  | infinite (negative : Bool)
  | finite (value : Binary)
  deriving Repr, DecidableEq, Inhabited

/-- The leading bit of a normal mantissa, which is not stored: `2 ^ 52`. -/
def hiddenBit : Nat := 4503599627370496

/-- The least exponent of the format, that of the subnormal doubles. -/
def leastExponent : Int := -1074

/-- Reads a stored double: one sign bit, eleven exponent bits, fifty-two fraction bits. -/
def Magnitude.ofBits (bits : Nat) : Magnitude :=
  let negative := bits.testBit 63
  let biased : Nat := bits / hiddenBit % 2048
  let fraction := bits % hiddenBit
  if biased = 2047 then
    if fraction = 0 then .infinite negative else .nan
  else if biased = 0 then
    .finite ⟨negative, fraction, leastExponent⟩
  else
    .finite ⟨negative, hiddenBit + fraction, leastExponent + (biased - 1 : Nat)⟩

def Magnitude.ofFloat (x : Float) : Magnitude :=
  .ofBits x.toBits.toNat

namespace Binary

/-- The integer part, rounded toward zero. -/
def truncate (b : Binary) : Int :=
  let size := match b.exponent with
    | .ofNat e => b.mantissa * Nat.pow 2 e
    | .negSucc e => b.mantissa / Nat.pow 2 (e + 1)
  if b.negative then -(size : Int) else size

/-- Whether the value is a whole number. -/
def isWhole (b : Binary) : Bool :=
  match b.exponent with
  | .ofNat _ => true
  | .negSucc e => b.mantissa % Nat.pow 2 (e + 1) == 0

/-- The double with this value, when there is one. -/
def toFloat (b : Binary) : Float :=
  let size := (Float.ofNat b.mantissa).scaleB b.exponent
  if b.negative then -size else size

/-- The remainder of the division of `a` by `b` that has the sign of `a` and is smaller than `b`
in size. Both are written over the smaller of the two exponents, so the remainder is that of two
natural numbers. -/
def remainder (a b : Binary) : Binary :=
  let low := min a.exponent b.exponent
  let scaled (c : Binary) : Nat := c.mantissa * Nat.pow 2 (c.exponent - low).toNat
  ⟨a.negative, scaled a % scaled b, low⟩

end Binary

end GeoScript.Decimal
