import GeoScript.Number
import GeoScript.Value.Basic

/-!
# Arithmetic on numbers and geometries

**The table.** Two numbers combine as numbers. Beside a geometry a number `n` stands for the point
`(n n)`. Two points combine axis by axis; two lines, or two sets of points, of equal length combine
index by index; a point is combined with every coordinate of any other geometry. All other pairs
have no arithmetic. Operands keep their order throughout.

**Concatenation** joins what can be joined into its left operand and makes a collection of the
rest.
-/

namespace GeoScript

def ArithOp.apply : ArithOp → Float → Float → Float
  | add, x, y => x + y
  | sub, x, y => x - y
  | mul, x, y => x * y
  | div, x, y => x / y
  | mod, x, y => Number.remainder x y
  | pow, x, y => x.pow y

def CompareOp.apply : CompareOp → Float → Float → Bool
  | lt, x, y => x < y
  | le, x, y => x ≤ y
  | gt, x, y => x > y
  | ge, x, y => x ≥ y

namespace Geometry

variable (op : ArithOp) (f : Float → Float → Float)

/-- Two lists of coordinates, index by index. -/
def pairwise (as bs : List Coord) : Except EvalFault (List Coord) :=
  if as.length = bs.length then .ok (List.zipWith (Coord.zipWith f) as bs)
  else .error (.shapeMismatch op as.length bs.length)

/-- Combines two geometries by a scalar operation, under the name of an operator. -/
def combine : Geometry → Geometry → Except EvalFault Geometry
  | point a, point b => .ok (point (Coord.zipWith f a b))
  | lineString as, lineString bs => (pairwise op f as bs).map lineString
  | multiPoint as, multiPoint bs => (pairwise op f as bs).map multiPoint
  | point p, g => .ok (g.mapCoords (Coord.zipWith f p))
  | g, point p => .ok (g.mapCoords fun c => Coord.zipWith f c p)
  | a, b => .error (.unsupported op a.kind b.kind)

/-- The point that a number stands for beside a geometry. -/
def diagonal (x : Float) : Geometry := point ⟨x, x⟩

/-- Joins two geometries. -/
def join : Geometry → Geometry → Geometry
  | lineString as, lineString bs => lineString (as ++ bs)
  | lineString as, multiPoint bs => lineString (as ++ bs)
  | lineString as, point p => lineString (as ++ [p])
  | multiPoint as, lineString bs => multiPoint (as ++ bs)
  | multiPoint as, multiPoint bs => multiPoint (as ++ bs)
  | multiPoint as, point p => multiPoint (as ++ [p])
  | collection as, collection bs => collection (as ++ bs)
  | collection as, g => collection (as ++ [g])
  | a, b => collection [a, b]

end Geometry

namespace Value

/-- Combines two values by a scalar operation, under the name of an operator. -/
def arithWith (op : ArithOp) (f : Float → Float → Float) : Value → Value → Except EvalFault Value
  | number x, number y => .ok (number (f x y))
  | number x, geometry g => (Geometry.combine op f (.diagonal x) g).map geometry
  | geometry g, number y => (Geometry.combine op f g (.diagonal y)).map geometry
  | geometry a, geometry b => (Geometry.combine op f a b).map geometry
  | l, r => .error (.typeMismatch (.arithOperands op l.typeName r.typeName))

def arith (op : ArithOp) : Value → Value → Except EvalFault Value := arithWith op op.apply

def compare (op : CompareOp) : Value → Value → Except EvalFault Value
  | number x, number y => .ok (bool (op.apply x y))
  | l, r => .error (.typeMismatch (.compareOperands op l.typeName r.typeName))

def concat : Value → Value → Except EvalFault Value
  | geometry a, geometry b => .ok (geometry (a.join b))
  | l, r => .error (.typeMismatch (.concatOperands l.typeName r.typeName))

end Value

end GeoScript
