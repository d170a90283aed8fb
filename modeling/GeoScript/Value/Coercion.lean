import GeoScript.Number
import GeoScript.Value.Basic

/-!
# Values as operands

What an operand has to be, and the fault when it is something else. Faults carry no line; whoever
evaluates the expression adds it.
-/

namespace GeoScript.Value

/-- The fault of a value that was needed as something else. -/
def needed (wanted : Wanted) (v : Value) : EvalFault :=
  .typeMismatch (.expected wanted v.typeName)

def asNumber : Value → Except EvalFault Float
  | number x => .ok x
  | v => .error (v.needed .number)

def asBool : Value → Except EvalFault Bool
  | bool b => .ok b
  | v => .error (v.needed .boolean)

def asGeometry : Value → Except EvalFault Geometry
  | geometry g => .ok g
  | v => .error (v.needed .geometry)

def asPoint : Value → Except EvalFault Coord
  | geometry (.point c) => .ok c
  | v => .error (v.needed .point)

/-- The point that an entry of a coordinate list has to be. -/
def asListPoint : Value → Except EvalFault Coord
  | geometry (.point c) => .ok c
  | v => .error (v.needed .coordinate)

/-- The geometry that a member of a collection has to be. -/
def asMember : Value → Except EvalFault Geometry
  | geometry g => .ok g
  | v => .error (.typeMismatch (.collectionMember v.typeName))

/-- The points of a geometry that is a list of points. -/
def asPoints (v : Value) : Except EvalFault (List Coord) :=
  match v with
  | geometry g =>
    match g.points? with
    | some cs => .ok cs
    | none => .error (v.needed .pointsList)
  | _ => .error (v.needed .pointsList)

/-- A whole number, brought into the range of 64-bit integers. -/
def asInteger (what : Quantity) (v : Value) : Except EvalFault Int := do
  let x ← v.asNumber
  match Number.whole? x with
  | some n => .ok (Number.clamp64 n)
  | none => .error (.typeMismatch (.notInteger what x))

/-- A whole number that is not negative. -/
def asCount (what : Quantity) (v : Value) : Except EvalFault Nat := do
  match ← v.asInteger what with
  | .ofNat n => .ok n
  | .negSucc n => .error (.typeMismatch (.negative what (.negSucc n)))

/-- The element of a list at the place that a value gives. -/
def elementOf {α : Type} (xs : List α) (v : Value) : Except EvalFault α := do
  let i ← v.asInteger .index
  let outside := EvalFault.indexOutOfRange (Float.ofInt i) xs.length
  match i with
  | .ofNat n =>
    match xs[n]? with
    | some x => .ok x
    | none => .error outside
  | .negSucc _ => .error outside

end GeoScript.Value
