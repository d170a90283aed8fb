import GeoScript.Decimal.Layout
import GeoScript.Geometry.Basic

/-!
# Well-known text

**The form.** The upper-case tag of the shape, then its list in parentheses, or `EMPTY` when the
top list is empty. Each point of a `MULTIPOINT` stands in parentheses of its own; members of a
collection are well-known texts themselves.
-/

namespace GeoScript

/-- Items in parentheses, separated by commas. -/
def listText (items : List String) : String :=
  "(" ++ ", ".intercalate items ++ ")"

/-- The two axes, separated by a blank. -/
def Coord.wkt (c : Coord) : String :=
  Decimal.text c.x ++ " " ++ Decimal.text c.y

namespace Geometry

/-- A list of positions. -/
def lineWkt (cs : List Coord) : String := listText (cs.map Coord.wkt)

/-- A list of lists of positions. -/
def ringsWkt (rs : List (List Coord)) : String := listText (rs.map lineWkt)

/-- The tag of a shape followed by its list. -/
def tagged (k : Kind) (body : String) : String := k.keyword ++ " " ++ body

/-- What stands for the list of a shape when there is nothing in it. -/
def emptyWkt (k : Kind) : String := tagged k "EMPTY"

mutual

/-- The well-known text of a geometry. -/
def wkt : Geometry → String
  | point c => tagged .point (listText [c.wkt])
  | lineString cs =>
    if cs.isEmpty then emptyWkt .lineString else tagged .lineString (lineWkt cs)
  | polygon rs =>
    if rs.isEmpty then emptyWkt .polygon else tagged .polygon (ringsWkt rs)
  | multiPoint cs =>
    if cs.isEmpty then emptyWkt .multiPoint
    else tagged .multiPoint (listText (cs.map fun c => listText [c.wkt]))
  | multiLineString ls =>
    if ls.isEmpty then emptyWkt .multiLineString else tagged .multiLineString (ringsWkt ls)
  | multiPolygon ps =>
    if ps.isEmpty then emptyWkt .multiPolygon
    else tagged .multiPolygon (listText (ps.map ringsWkt))
  | collection gs =>
    if gs.isEmpty then emptyWkt .collection
    else tagged .collection (listText (wktMembers gs []))

/-- The texts of the members of a collection, after those in `done`, which stand last first. -/
def wktMembers : List Geometry → List String → List String
  | [], done => done.reverse
  | g :: gs, done => wktMembers gs (wkt g :: done)

end

end Geometry

end GeoScript
