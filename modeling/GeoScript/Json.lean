import GeoScript.Decimal.Layout

/-!
# JSON text

**Layout.** `pretty` writes every array element and every object member on a line of its own,
two blanks deeper than the bracket that opened the list; an empty list is written as the two
brackets side by side.

**Numbers** have the fewest digits that read back, always a point or an exponent, and `null` in
place of what is not finite.
-/

namespace GeoScript

/-- A JSON document. Object members are kept in the order in which they are written. -/
inductive Json where
  | null
  | bool (value : Bool)
  | number (value : Float)
  | string (value : String)
  | array (items : List Json)
  | object (members : List (String × Json))
  deriving Inhabited

namespace Json

/-- Number texts: positional from `0.00001` up to below `10 ^ 16`. -/
def numberFormat : Decimal.Format where
  tie := .even
  low := some (-5)
  high := some 16
  pointZero := true
  plusSign := true
  nan := "null"
  infinity := "null"
  negInfinity := "null"

def hexDigit (n : Nat) : Char := (Nat.toDigits 16 n).headD '0'

/-- A character inside a string: quotes, backslashes and control characters are escaped. -/
def escape (c : Char) : String :=
  if c == '"' then "\\\""
  else if c == '\\' then "\\\\"
  else if c.toNat == 0x08 then "\\b"
  else if c.toNat == 0x09 then "\\t"
  else if c.toNat == 0x0a then "\\n"
  else if c.toNat == 0x0c then "\\f"
  else if c.toNat == 0x0d then "\\r"
  else if c.toNat < 0x20 then
    "\\u00" ++ String.ofList [hexDigit (c.toNat / 16), hexDigit (c.toNat % 16)]
  else c.toString

def quote (s : String) : String :=
  "\"" ++ String.join (s.toList.map escape) ++ "\""

/-- The start of a line at a depth. -/
def lineStart (depth : Nat) : String :=
  "\n" ++ String.ofList (List.replicate (2 * depth) ' ')

/-- The texts of a list between its brackets, one to a line. -/
def block (opening closing : String) (depth : Nat) (items : List String) : String :=
  if items.isEmpty then opening ++ closing
  else
    opening ++ lineStart (depth + 1) ++ ("," ++ lineStart (depth + 1)).intercalate items ++
      lineStart depth ++ closing

mutual

/-- The text of a document whose first line starts at a depth. -/
def prettyAt (depth : Nat) : Json → String
  | null => "null"
  | bool b => if b then "true" else "false"
  | number x => numberFormat.text x
  | string s => quote s
  | array items => block "[" "]" depth (prettyItems (depth + 1) items [])
  | object members => block "\x7b" "\x7d" depth (prettyMembers (depth + 1) members [])

def prettyItems (depth : Nat) : List Json → List String → List String
  | [], done => done.reverse
  | j :: js, done => prettyItems depth js (prettyAt depth j :: done)

def prettyMembers (depth : Nat) : List (String × Json) → List String → List String
  | [], done => done.reverse
  | (key, j) :: ms, done =>
    prettyMembers depth ms ((quote key ++ ": " ++ prettyAt depth j) :: done)

end

/-- The text of a document over several lines. -/
def pretty (j : Json) : String := prettyAt 0 j

end Json

end GeoScript
