import GeoScript.Library.Basic

/-!
# The `geometry` library

Constructors of point collections, conversions between lists of points, and functions that walk
over all coordinates of a geometry.
-/

namespace GeoScript.Library.Shapes

/-- A full turn in radians. -/
def turn : Float := 6.283185307179586

/-- The fault of a constructor that would make too much. -/
def tooMany (what : String) (requested : Float) : EvalFault := .tooManyElements what requested

/-- `count` points on a circle around the origin, from the first axis on, counter-clockwise. -/
def pointCircle (radius : Float) (count : Nat) : Except EvalFault Geometry :=
  if count ≤ maxElements then
    let step := turn / Float.ofNat count
    .ok (.collection ((List.range count).map fun i =>
      let angle := Float.ofNat i * step
      .point ⟨radius * angle.cos, radius * angle.sin⟩))
  else
    .error (tooMany "PointCircle" (Float.ofNat count))

/-- The points of a grid, column by column. The point at `i * height + j` is the one in column
`i` and row `j`. -/
def pointGrid (width height : Nat) (spacing : Float) : Except EvalFault Geometry :=
  if width * height ≤ maxElements then
    .ok (.collection ((List.range (width * height)).map fun k =>
      .point ⟨Float.ofNat (k / height) * spacing, Float.ofNat (k % height) * spacing⟩))
  else
    .error (tooMany "PointGrid" (Float.ofNat width * Float.ofNat height))

/-- Ends a list of points where it began, unless it nearly does already. -/
def close (cs : List Coord) : List Coord :=
  match cs.head?, cs.getLast? with
  | some first, some last => if first.isNear last then cs else cs ++ [first]
  | _, _ => cs

/-- The polygon with one closed outline, or none if there are no points. -/
def toPolygon (cs : List Coord) : Geometry :=
  if cs.isEmpty then .polygon [] else .polygon [close cs]

/-- Scaled numbers from here on have no digits behind the point. -/
def exactLimit : Float := 9007199254740992

/-- The product of `product` and the power `base ^ n`, by repeated squaring. -/
def timesPower (product base : Float) (n : Nat) : Float :=
  if n = 0 then product
  else timesPower (if n % 2 = 1 then product * base else product) (base * base) (n / 2)
termination_by n

/-- Ten to a power: exact up to the twenty-second, infinite when it is too large. -/
def powerOfTen (places : Nat) : Float := timesPower 1 10 places

/-- A number rounded to a number of decimal places. Numbers that have no more digits than that
stay as they are. -/
def roundTo (places : Nat) (x : Float) : Float :=
  let factor := powerOfTen places
  let scaled := x * factor
  if !factor.isFinite || scaled.abs ≥ exactLimit then x
  else Number.roundHalfUp scaled / factor

def round (places : Nat) : Value → Except EvalFault Value
  | .number x => .ok (.number (roundTo places x))
  | .geometry g => .ok (.geometry (g.mapCoords fun c => ⟨roundTo places c.x, roundTo places c.y⟩))
  | v => .error (.typeMismatch (.roundOperand v.typeName))

def exports : List Export :=
  [.function "Flatten" 1, .function "PointCircle" 2, ⟨"PointGrid", .function 2 (some 3)⟩,
    .function "ToLineString" 1, .function "ToMultiPoint" 1, .function "ToPolygon" 1,
    .function "ToGeometryCollection" 1, .function "Rotate" 3, .function "Round" 2]

/-- A function of a list of points that gives a geometry. -/
def conversion (make : List Coord → Geometry) : Builtin :=
  .function fun args => do return .geometry (make (← (argument args 0).asPoints))

def builtin? : String → Option Builtin
  | "Flatten" => some (.function fun args => do
      return .geometry (.collection (← (argument args 0).asGeometry).flatten))
  | "PointCircle" => some (.function fun args => do
      let radius ← numberAt args 0
      let count ← (argument args 1).asCount .pointCount
      return .geometry (← pointCircle radius count))
  | "PointGrid" => some (.function fun args => do
      let width ← (argument args 0).asCount .gridWidth
      let height ← (argument args 1).asCount .gridHeight
      let spacing ← if args.length > 2 then numberAt args 2 else .ok 1
      return .geometry (← pointGrid width height spacing))
  | "ToLineString" => some (conversion .lineString)
  | "ToMultiPoint" => some (conversion .multiPoint)
  | "ToPolygon" => some (conversion toPolygon)
  | "ToGeometryCollection" => some (conversion fun cs => .collection (cs.map .point))
  | "Rotate" => some (.function fun args => do
      let angle ← numberAt args 0
      let pivot ← (argument args 1).asPoint
      return .geometry ((← (argument args 2).asGeometry).rotate angle pivot))
  | "Round" => some (.function fun args => do
      let places ← (argument args 0).asCount .precision
      round places (argument args 1))
  | _ => none

end Shapes

def geometry : Library := ⟨"geometry", Shapes.exports, Shapes.builtin?⟩

end GeoScript.Library
