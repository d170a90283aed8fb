import GeoScript.Value.Coercion

/-!
# Accessors

`target:property(arguments)` reads a part of a geometry, or a copy of a point with one axis
replaced. Property names are matched in any case of letters; messages show them as written.
-/

namespace GeoScript.Value

/-- The fault of a wrong number of arguments. -/
def argumentCount (property : String) (expected : Arity) (args : List Value) : EvalFault :=
  .arity property expected args.length

/-- An accessor without arguments. -/
def readWith (property : String) (args : List Value) (v : Value) : Except EvalFault Value :=
  match args with
  | [] => .ok v
  | _ => .error (argumentCount property (.exactly 0) args)

/-- An accessor that takes the place of an element. -/
def elementWith {α : Type} (property : String) (args : List Value) (xs : List α)
    (wrap : α → Value) : Except EvalFault Value :=
  match args with
  | [i] => (i.elementOf xs).map wrap
  | _ => .error (argumentCount property (.exactly 1) args)

/-- Reads one axis of a point, or replaces it. -/
def axisWith (property : String) (args : List Value) (x : Float) (replace : Float → Coord) :
    Except EvalFault Value :=
  match args with
  | [] => .ok (number x)
  | [v] => v.asNumber.map fun x => point (replace x)
  | _ => .error (argumentCount property .zeroOrOne args)

/-- The value of `target:property(args)`. -/
def access (target : Value) (property : String) (args : List Value) : Except EvalFault Value :=
  match target with
  | geometry g =>
    match g, property.toLower with
    | g, "type" => readWith property args (type g.kind)
    | .point c, "x" => axisWith property args c.x fun x => ⟨x, c.y⟩
    | .point c, "y" => axisWith property args c.y fun y => ⟨c.x, y⟩
    | .collection gs, "numgeometries" =>
      readWith property args (number (Float.ofNat gs.length))
    | .collection gs, "geometryn" => elementWith property args gs geometry
    | .lineString cs, "numpoints" => readWith property args (number (Float.ofNat cs.length))
    | .lineString cs, "pointn" => elementWith property args cs point
    | g, _ => .error (.notAccessible property g.kind)
  | v => .error (.typeMismatch (.accessTarget property v.typeName))

end GeoScript.Value
