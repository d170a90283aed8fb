import GeoScript.Decimal.Binary

/-!
# The fewest digits that read back

**The rule.** A positive double `m · 2 ^ q` owns an interval of reals, those that round to it; the
ends belong to it exactly when `m` is even. Among the decimals `d · 10 ^ k` in that interval the
shortest one has the fewest digits, and of those it is the nearest to the value.

**The search.** For 1, 2, … 17 digits the value has two neighbours on the grid of decimals with
that many digits. If any point of the grid lies in the interval, one of these two does, so the
first grid with a hit has the fewest digits. All comparisons are between natural numbers.
-/

namespace GeoScript.Decimal

/-- The decimal `significand * 10 ^ exponent`. -/
structure Scientific where
  significand : Nat
  exponent : Int
  deriving Repr, DecidableEq, Inhabited

/-- Which of two equally near candidates is taken. -/
inductive Tie where
  | up
  | even
  deriving Repr, DecidableEq

/-- A positive rational, by which binary and decimal grids are compared. -/
structure Ratio where
  num : Nat
  den : Nat
  deriving Repr, DecidableEq, Inhabited

namespace Ratio

/-- The power `base ^ e` for an integer `e`. -/
def pow (base : Nat) : Int → Ratio
  | .ofNat e => ⟨Nat.pow base e, 1⟩
  | .negSucc e => ⟨1, Nat.pow base (e + 1)⟩

def mul (a b : Ratio) : Ratio := ⟨a.num * b.num, a.den * b.den⟩

/-- The exponent of the leading decimal digit: the `e` with `10 ^ e ≤ r < 10 ^ (e + 1)`. -/
def leadingExponent (r : Ratio) : Int :=
  if r.den ≤ r.num then
    (Nat.toDigits 10 (r.num / r.den)).length - 1
  else
    let n := (Nat.toDigits 10 (r.den / r.num)).length
    if r.den ≤ r.num * Nat.pow 10 (n - 1) then 1 - (n : Int) else -(n : Int)

end Ratio

/-- The interval of reals that round to a double, in quarters of the double's last place:
`low ≤ 4 · mantissa ≤ high`. Just above a power of two the doubles below lie twice as dense, so
the lower half of the interval is half as wide there. -/
structure Interval where
  low : Nat
  value : Nat
  high : Nat
  closed : Bool
  deriving Repr

def Interval.of (mantissa : Nat) (exponent : Int) : Interval where
  low := if mantissa = hiddenBit ∧ exponent ≠ leastExponent then 4 * mantissa - 1 else 4 * mantissa - 2
  value := 4 * mantissa
  high := 4 * mantissa + 2
  closed := mantissa % 2 = 0

/-- Whether the grid point `d` lies in the interval, where one quarter is `unit` grid steps. -/
def Interval.holds (i : Interval) (unit : Ratio) (d : Nat) : Bool :=
  let point := d * unit.den
  if i.closed then i.low * unit.num ≤ point && point ≤ i.high * unit.num
  else i.low * unit.num < point && point < i.high * unit.num

/-- The grid point of the interval nearest to the value, when one of the value's two neighbours
on the grid lies in the interval. -/
def Interval.nearest? (i : Interval) (tie : Tie) (unit : Ratio) : Option Nat :=
  let scaled := i.value * unit.num
  let below := scaled / unit.den
  let above := below + 1
  let toBelow := scaled - below * unit.den
  let toAbove := above * unit.den - scaled
  let takeBelow := toBelow < toAbove ||
    (toBelow == toAbove && tie == .even && below % 2 == 0)
  match i.holds unit below, i.holds unit above with
  | true, true => some (if takeBelow then below else above)
  | true, false => some below
  | false, true => some above
  | false, false => none

/-- The most digits that any double needs. -/
def mostDigits : Nat := 17

/-- The shortest decimal that reads back as `mantissa * 2 ^ exponent`, for a positive mantissa. -/
def shortest (tie : Tie) (mantissa : Nat) (exponent : Int) : Scientific :=
  let interval := Interval.of mantissa exponent
  let quarter := Ratio.pow 2 (exponent - 2)
  let leading := (Ratio.mul ⟨interval.value, 1⟩ quarter).leadingExponent
  let onGrid (digits : Nat) : Option Scientific :=
    let k := leading + 1 - digits
    (interval.nearest? tie (quarter.mul (Ratio.pow 10 (-k)))).map fun d =>
      if d = 10 then ⟨1, k + 1⟩ else ⟨d, k⟩
  ((List.range mostDigits).findSome? fun n => onGrid (n + 1)).getD ⟨mantissa, 0⟩

end GeoScript.Decimal
