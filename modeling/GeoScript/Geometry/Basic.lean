/-!
# Planar geometries

**Shapes.** The seven well-known shapes over pairs of doubles. Collections hold geometries of any
shape, so they nest to any depth; the other shapes are lists of coordinates, of lists, or of lists
of lists.

**Walks.** `traverse` passes every coordinate through a function that may fail or keep state, from
left to right and depth first, and rebuilds the geometry around the results. `mapCoords` is the
walk without effects, `coords` the list of what the walk visits.

**Leaves.** `flatten` lists the members of nested collections that are no collections themselves.
-/

namespace GeoScript

/-- A position in the plane. -/
structure Coord where
  x : Float
  y : Float
  deriving Repr, BEq, DecidableEq, Inhabited

namespace Coord

/-- Combines two positions axis by axis. -/
def zipWith (op : Float → Float → Float) (a b : Coord) : Coord :=
  ⟨op a.x b.x, op a.y b.y⟩

/-- The distance per axis within which two positions count as the same, six decimal places. -/
def tolerance : Float := 1e-6

def isNear (a b : Coord) : Bool :=
  (a.x - b.x).abs ≤ tolerance && (a.y - b.y).abs ≤ tolerance

end Coord

/-- The shape of a geometry. -/
inductive Geometry.Kind where
  | point
  | lineString
  | polygon
  | multiPoint
  | multiLineString
  | multiPolygon
  | collection
  deriving Repr, DecidableEq, Inhabited

namespace Geometry.Kind

def all : List Kind :=
  [point, lineString, polygon, multiPoint, multiLineString, multiPolygon, collection]

/-- The name that `type()` shows. -/
def name : Kind → String
  | point => "Point"
  | lineString => "LineString"
  | polygon => "Polygon"
  | multiPoint => "MultiPoint"
  | multiLineString => "MultiLineString"
  | multiPolygon => "MultiPolygon"
  | collection => "GeometryCollection"

/-- The upper-case tag in well-known text. -/
def keyword : Kind → String
  | point => "POINT"
  | lineString => "LINESTRING"
  | polygon => "POLYGON"
  | multiPoint => "MULTIPOINT"
  | multiLineString => "MULTILINESTRING"
  | multiPolygon => "MULTIPOLYGON"
  | collection => "GEOMETRYCOLLECTION"

/-- The shape whose tag is `word`, in any case of letters. -/
def ofKeyword? (word : String) : Option Kind :=
  all.find? fun k => k.keyword == word.toUpper

end Geometry.Kind

/-- A geometry. The first ring of a polygon is its outline. -/
inductive Geometry where
  | point (position : Coord)
  | lineString (line : List Coord)
  | polygon (rings : List (List Coord))
  | multiPoint (points : List Coord)
  | multiLineString (lines : List (List Coord))
  | multiPolygon (polygons : List (List (List Coord)))
  | collection (members : List Geometry)
  deriving Inhabited

namespace Geometry

def kind : Geometry → Kind
  | point _ => .point
  | lineString _ => .lineString
  | polygon _ => .polygon
  | multiPoint _ => .multiPoint
  | multiLineString _ => .multiLineString
  | multiPolygon _ => .multiPolygon
  | collection _ => .collection

/-- The geometry of a shape with nothing in it. A point has no empty form. -/
def empty? : Kind → Option Geometry
  | .point => none
  | .lineString => some (lineString [])
  | .polygon => some (polygon [])
  | .multiPoint => some (multiPoint [])
  | .multiLineString => some (multiLineString [])
  | .multiPolygon => some (multiPolygon [])
  | .collection => some (collection [])

/-- Whether the top list of the geometry is empty. -/
def isEmpty : Geometry → Bool
  | point _ => false
  | lineString cs => cs.isEmpty
  | polygon rs => rs.isEmpty
  | multiPoint cs => cs.isEmpty
  | multiLineString ls => ls.isEmpty
  | multiPolygon ps => ps.isEmpty
  | collection gs => gs.isEmpty

/-! ## Equality

Coordinates are compared as numbers, so the two zeros agree and `NaN` differs from itself. -/

mutual

/-- Same shape, same nesting, equal coordinates. -/
def beq : Geometry → Geometry → Bool
  | point a, point b => a == b
  | lineString a, lineString b => a == b
  | polygon a, polygon b => a == b
  | multiPoint a, multiPoint b => a == b
  | multiLineString a, multiLineString b => a == b
  | multiPolygon a, multiPolygon b => a == b
  | collection a, collection b => beqMembers a b
  | _, _ => false

def beqMembers : List Geometry → List Geometry → Bool
  | [], [] => true
  | a :: as, b :: bs => beq a b && beqMembers as bs
  | _, _ => false

end

instance : BEq Geometry := ⟨beq⟩

/-! ## Walks over the coordinates -/

section Traverse

variable {m : Type → Type} [Monad m]

mutual

/-- Rebuilds the geometry with every coordinate passed through `f`, in order. -/
def traverse (f : Coord → m Coord) : Geometry → m Geometry
  | point c => do return point (← f c)
  | lineString cs => do return lineString (← cs.mapM f)
  | polygon rs => do return polygon (← rs.mapM (List.mapM f))
  | multiPoint cs => do return multiPoint (← cs.mapM f)
  | multiLineString ls => do return multiLineString (← ls.mapM (List.mapM f))
  | multiPolygon ps => do return multiPolygon (← ps.mapM (List.mapM (List.mapM f)))
  | collection gs => do return collection (← traverseMembers f gs [])

/-- Walks the members of a collection; `done` holds the finished ones, last first. -/
def traverseMembers (f : Coord → m Coord) : List Geometry → List Geometry → m (List Geometry)
  | [], done => pure done.reverse
  | g :: gs, done => do
    let g ← traverse f g
    traverseMembers f gs (g :: done)

end

end Traverse

/-- The geometry with every coordinate replaced by its image. -/
def mapCoords (f : Coord → Coord) (g : Geometry) : Geometry :=
  Id.run (g.traverse fun c => pure (f c))

mutual

/-- The coordinates of the geometry in front of those in `seen`, last first. -/
def coordsOnto : Geometry → List Coord → List Coord
  | point c, seen => c :: seen
  | lineString cs, seen => cs.reverse ++ seen
  | polygon rs, seen => rs.flatten.reverse ++ seen
  | multiPoint cs, seen => cs.reverse ++ seen
  | multiLineString ls, seen => ls.flatten.reverse ++ seen
  | multiPolygon ps, seen => ps.flatten.flatten.reverse ++ seen
  | collection gs, seen => coordsOntoMembers gs seen

def coordsOntoMembers : List Geometry → List Coord → List Coord
  | [], seen => seen
  | g :: gs, seen => coordsOntoMembers gs (coordsOnto g seen)

end

/-- All coordinates, from left to right and depth first. -/
def coords (g : Geometry) : List Coord := (g.coordsOnto []).reverse

mutual

/-- The leaves of the geometry in front of those in `seen`, last first. -/
def leavesOnto : Geometry → List Geometry → List Geometry
  | collection gs, seen => leavesOntoMembers gs seen
  | g, seen => g :: seen

def leavesOntoMembers : List Geometry → List Geometry → List Geometry
  | [], seen => seen
  | g :: gs, seen => leavesOntoMembers gs (leavesOnto g seen)

end

/-- The geometries inside nested collections that are no collections, depth first. -/
def flatten (g : Geometry) : List Geometry := (g.leavesOnto []).reverse

/-! ## Points and turns -/

def asPoint? : Geometry → Option Coord
  | point c => some c
  | _ => none

/-- The ordered points of a line, of a set of points, or of a collection made of points only. -/
def points? : Geometry → Option (List Coord)
  | lineString cs => some cs
  | multiPoint cs => some cs
  | collection gs => gs.mapM asPoint?
  | _ => none

/-- Half a turn in radians. -/
def pi : Float := 3.141592653589793

/-- The geometry turned counter-clockwise by `degrees` around `pivot`. -/
def rotate (degrees : Float) (pivot : Coord) (g : Geometry) : Geometry :=
  let angle := degrees * (pi / 180)
  let sin := angle.sin
  let cos := angle.cos
  g.mapCoords fun c =>
    let dx := c.x - pivot.x
    let dy := c.y - pivot.y
    ⟨pivot.x + dx * cos - dy * sin, pivot.y + dx * sin + dy * cos⟩

end Geometry

end GeoScript
