import GeoScript.Geometry.Basic
import GeoScript.Json

/-!
# GeoJSON

**The form.** A geometry is an object with its `coordinates` and its `type`; a collection has
`geometries` in place of `coordinates`. Positions are two-element arrays.
-/

namespace GeoScript

def Coord.json (c : Coord) : Json := .array [.number c.x, .number c.y]

namespace Geometry

def lineJson (cs : List Coord) : Json := .array (cs.map Coord.json)

def ringsJson (rs : List (List Coord)) : Json := .array (rs.map lineJson)

/-- The object of a shape that is no collection. -/
def withCoordinates (k : Kind) (coordinates : Json) : Json :=
  .object [("coordinates", coordinates), ("type", .string k.name)]

mutual

/-- The GeoJSON object of a geometry. -/
def json : Geometry → Json
  | point c => withCoordinates .point c.json
  | lineString cs => withCoordinates .lineString (lineJson cs)
  | polygon rs => withCoordinates .polygon (ringsJson rs)
  | multiPoint cs => withCoordinates .multiPoint (lineJson cs)
  | multiLineString ls => withCoordinates .multiLineString (ringsJson ls)
  | multiPolygon ps => withCoordinates .multiPolygon (.array (ps.map ringsJson))
  | collection gs =>
    .object [("geometries", .array (jsonMembers gs [])), ("type", .string Kind.collection.name)]

def jsonMembers : List Geometry → List Json → List Json
  | [], done => done.reverse
  | g :: gs, done => jsonMembers gs (json g :: done)

end

end Geometry

end GeoScript
