import GeoScript.Heap.Basic
import GeoScript.Text.Invisible

/-!
# Structural texts

The structure of values and scopes, spelled out for whoever wants to look inside: constructor
names, field names, and numbers that always show a point or an exponent.
-/

namespace GeoScript.Inspect

/-- Numbers: positional from `0.0001` up to below `10 ^ 16`. -/
def numberFormat : Decimal.Format where
  tie := .up
  low := some (-4)
  high := some 16
  pointZero := true
  plusSign := false
  nan := "NaN"
  infinity := "inf"
  negInfinity := "-inf"

/-- A record with named fields. -/
def record (name : String) (fields : List String) : String :=
  name ++ " \x7b " ++ ", ".intercalate fields ++ " \x7d"

def field (name value : String) : String := name ++ ": " ++ value

/-- A constructor with one argument. -/
def tagged (name argument : String) : String := name ++ "(" ++ argument ++ ")"

def list (items : List String) : String := "[" ++ ", ".intercalate items ++ "]"

/-- A character inside quotes. What would show nothing is written by its number. -/
def escape (c : Char) : String :=
  if c == '"' then "\\\""
  else if c == '\\' then "\\\\"
  else if c == '\n' then "\\n"
  else if c == '\r' then "\\r"
  else if c == '\t' then "\\t"
  else if c.toNat == 0 then "\\0"
  else if Text.isInvisible c then
    "\\u\x7b" ++ String.ofList (Nat.toDigits 16 c.toNat) ++ "\x7d"
  else c.toString

def quote (s : String) : String :=
  "\"" ++ String.join (s.toList.map escape) ++ "\""

def coord (c : Coord) : String :=
  record "Coord" [field "x" (numberFormat.text c.x), field "y" (numberFormat.text c.y)]

def line (cs : List Coord) : String := list (cs.map coord)

def rings (rs : List (List Coord)) : String := list (rs.map line)

mutual

def geometry : Geometry → String
  | .point c => tagged Geometry.Kind.point.name (coord c)
  | .lineString cs => tagged Geometry.Kind.lineString.name (line cs)
  | .polygon rs => tagged Geometry.Kind.polygon.name (rings rs)
  | .multiPoint cs => tagged Geometry.Kind.multiPoint.name (line cs)
  | .multiLineString ls => tagged Geometry.Kind.multiLineString.name (rings ls)
  | .multiPolygon ps => tagged Geometry.Kind.multiPolygon.name (list (ps.map rings))
  | .collection gs => tagged Geometry.Kind.collection.name (list (members gs []))

def members : List Geometry → List String → List String
  | [], done => done.reverse
  | g :: gs, done => members gs (geometry g :: done)

end

/-- The largest count of 64 bits, which stands for no bound. -/
def unbounded : Nat := 18446744073709551615

def native (f : Native) : String :=
  record "NativeFn" [field "namespace" (quote f.library), field "name" (quote f.name),
    field "min_args" (toString f.minArgs),
    field "max_args" (toString (f.maxArgs.getD unbounded))]

/-- The structure of a value; the body and the scope of a closure are left out. -/
def value : Value → String
  | .number x => tagged "Number" (numberFormat.text x)
  | .bool b => tagged "Boolean" (Token.Kind.boolText b)
  | .unit => "Unit"
  | .geometry g => tagged "Geometry" (geometry g)
  | .type k => tagged "Type" k.name
  | .closure c =>
    tagged "Closure" (record "Closure" [field "params" (list (c.lambda.params.map quote)), ".."])
  | .native f => tagged "Native" (native f)

/-- The structure of a scope: the names it binds itself, and how deep it lies. -/
def scope (h : Heap) (id : ScopeId) : String :=
  record "Scope" [field "names" (list ((h.localNames id).map quote)),
    field "depth" (toString (h.depth id))]

end GeoScript.Inspect
