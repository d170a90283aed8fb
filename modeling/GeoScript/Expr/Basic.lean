import GeoScript.Token.Basic

/-!
# Expressions

**Trees.** A script is a sequence of expressions. Binary operators of all levels share one node;
which operands they take and in which order they run is a matter of evaluation.

**Places.** A node remembers the place of its first token; a binary node, a call and an accessor
have the place of their left part, so it is computed and not stored.
-/

namespace GeoScript

inductive ArithOp where
  | add | sub | mul | div | mod | pow
  deriving Repr, DecidableEq, Inhabited

def ArithOp.symbol : ArithOp → Symbol
  | add => .plus
  | sub => .minus
  | mul => .star
  | div => .slash
  | mod => .percent
  | pow => .caret

inductive CompareOp where
  | lt | le | gt | ge
  deriving Repr, DecidableEq, Inhabited

def CompareOp.symbol : CompareOp → Symbol
  | lt => .less
  | le => .lessEqual
  | gt => .greater
  | ge => .greaterEqual

inductive LogicOp where
  | and | or
  deriving Repr, DecidableEq, Inhabited

/-- What a pipeline does with its source: hands it over whole, maps or filters its elements, or
maps its coordinates at any depth. -/
inductive PipeKind where
  | apply | map | filter | deepMap
  deriving Repr, DecidableEq, Inhabited

def PipeKind.symbol : PipeKind → Symbol
  | apply => .pipe
  | map => .pipePipe
  | filter => .pipeGreater
  | deepMap => .pipeStar

inductive BinaryOp where
  | logic (op : LogicOp)
  | equality (negated : Bool)
  | compare (op : CompareOp)
  | pipe (kind : PipeKind)
  | concat
  | arith (op : ArithOp)
  deriving Repr, DecidableEq, Inhabited

mutual

/-- A script, or a part of one. -/
inductive Expr where
  | number (value : Float) (position : Position)
  | bool (value : Bool) (position : Position)
  | ident (name : String) (position : Position)
  /-- The name of a shape on its own. -/
  | typeTag (kind : Geometry.Kind) (position : Position)
  | decl (name : String) (value : Expr) (position : Position)
  | seq (items : List Expr) (position : Position)
  | geometry (kind : Geometry.Kind) (body : Body) (position : Position)
  | function (params : List String) (body : Expr) (position : Position)
  | call (callee : Expr) (args : List Expr)
  | access (target : Expr) (property : String) (args : List Expr)
  | binary (op : BinaryOp) (left right : Expr)
  | generate (count body : Expr) (position : Position)
  | cond (condition thenBranch elseBranch : Expr) (position : Position)
  | not (operand : Expr) (position : Position)
  | neg (operand : Expr) (position : Position)

/-- One entry of a coordinate list: a pair written out, or an expression for a geometry. -/
inductive Element where
  | pair (x y : Expr)
  | value (expr : Expr)

/-- What stands behind the name of a shape. -/
inductive Body where
  | empty
  | point (x y : Expr)
  | elements (items : List Element)
  | rings (rings : List (List Element))
  | polygons (polygons : List (List (List Element)))

end

instance : Inhabited Expr := ⟨.seq [] .start⟩

namespace Expr

/-- The place of the first token of an expression, enclosing parentheses left out. -/
def position : Expr → Position
  | number _ p => p
  | bool _ p => p
  | ident _ p => p
  | typeTag _ p => p
  | decl _ _ p => p
  | seq _ p => p
  | geometry _ _ p => p
  | function _ _ p => p
  | call callee _ => callee.position
  | access target _ _ => target.position
  | binary _ left _ => left.position
  | generate _ _ p => p
  | cond _ _ _ p => p
  | not _ p => p
  | neg _ p => p

/-- The line that errors of an expression are reported at. -/
def line (e : Expr) : Nat := e.position.line

end Expr

end GeoScript
