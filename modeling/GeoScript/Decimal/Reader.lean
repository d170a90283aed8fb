import GeoScript.Decimal.Layout

/-!
# Reading unsigned decimals

**The form.** Digits, with digits after a point, with digits before the point left out, and in
each case with an exponent: `12`, `1.5`, `.5`, `1e3`, `2.5E-1`.

**The value** is the double nearest to the decimal. Exponents far outside the range of doubles
are settled by size alone, so the work stays proportional to the text.
-/

namespace GeoScript.Decimal

/-- The number that a list of decimal digits stands for. -/
def ofDigits (ds : List Char) : Nat :=
  ds.foldl (fun n c => 10 * n + (c.toNat - '0'.toNat)) 0

/-- Splits off the leading decimal digits. -/
def spanDigits (cs : List Char) : List Char × List Char :=
  (cs.takeWhile Char.isDigit, cs.dropWhile Char.isDigit)

/-- The digits after a point, and what follows them. No digit after the point is no fraction. -/
def readFraction? : List Char → Option (List Char × List Char)
  | '.' :: cs =>
    let (ds, rest) := spanDigits cs
    if ds.isEmpty then none else some (ds, rest)
  | cs => some ([], cs)

/-- The exponent part that makes up the whole of a text; the empty text is the exponent zero. -/
def readExponent? : List Char → Option Int
  | [] => some 0
  | mark :: cs =>
    if mark == 'e' || mark == 'E' then
      let (negative, cs) := match cs with
        | '-' :: r => (true, r)
        | '+' :: r => (false, r)
        | r => (false, r)
      let (ds, rest) := spanDigits cs
      if ds.isEmpty || !rest.isEmpty then none
      else some (if negative then -(ofDigits ds : Int) else ofDigits ds)
    else
      none

/-- The double nearest to `significand * 10 ^ exponent`. -/
def nearest (significand : Nat) (exponent : Int) : Float :=
  let leading := exponent + (digits significand).length
  if significand = 0 ∨ leading < -400 then 0
  else if leading > 400 then 1 / 0
  else match exponent with
    | .ofNat e => Float.ofScientific significand false e
    | .negSucc e => Float.ofScientific significand true (e + 1)

/-- The double that an unsigned decimal text stands for. -/
def read? (cs : List Char) : Option Float :=
  let (whole, rest) := spanDigits cs
  match readFraction? rest with
  | none => none
  | some (fraction, rest) =>
    if whole.isEmpty && fraction.isEmpty then none
    else (readExponent? rest).map fun e =>
      nearest (ofDigits (whole ++ fraction)) (e - fraction.length)

end GeoScript.Decimal
