import GeoScript.EvalError
import GeoScript.Geometry.Wkt

/-!
# Values

**Functions** are either closures, which pair a function literal with the scope it was evaluated
in, or natives, which are known by name.

**Identity.** Two closures are equal when they come from the same literal of the same program and
were made in the same scope. A literal is known by the number of its program and its place there.
-/

namespace GeoScript

/-- Scopes are numbered in the order in which they are made. -/
abbrev ScopeId := Nat

/-- Where a function literal stands: which program, and where in it. -/
structure Origin where
  program : Nat
  position : Position
  deriving Repr, DecidableEq, Inhabited

/-- A function literal. -/
structure Lambda where
  params : List String
  body : Expr
  origin : Origin
  deriving Inhabited

/-- A function literal together with the scope it was evaluated in. -/
structure Closure where
  lambda : Lambda
  scope : ScopeId
  deriving Inhabited

namespace Closure

/-- What two equal closures have in common. -/
def key (c : Closure) : Origin × ScopeId := (c.lambda.origin, c.scope)

instance : BEq Closure := ⟨fun a b => a.key == b.key⟩

end Closure

/-- A library function: its library, its name, and how many arguments it takes. -/
structure Native where
  library : String
  name : String
  minArgs : Nat
  /-- The most arguments, or `none` for any number. -/
  maxArgs : Option Nat
  deriving Repr, DecidableEq, Inhabited

namespace Native

/-- Whether the function can be called with that many arguments. -/
def accepts (f : Native) (count : Nat) : Bool :=
  f.minArgs ≤ count && f.maxArgs.all (count ≤ ·)

def arity (f : Native) : Arity :=
  match f.maxArgs with
  | none => .atLeast f.minArgs
  | some most => if f.minArgs = most then .exactly most else .between f.minArgs most

end Native

inductive Value where
  | number (value : Float)
  | bool (value : Bool)
  | unit
  | geometry (value : Geometry)
  | type (kind : Geometry.Kind)
  | closure (function : Closure)
  | native (function : Native)
  deriving Inhabited

namespace Value

def point (c : Coord) : Value := geometry (.point c)

def typeName : Value → TypeName
  | number _ => .number
  | bool _ => .boolean
  | unit => .unit
  | geometry g => .geometry g.kind
  | type _ => .type
  | closure _ => .function
  | native _ => .function

def isCallable : Value → Bool
  | closure _ => true
  | native _ => true
  | _ => false

def isClosure : Value → Bool
  | closure _ => true
  | _ => false

def isGeometry : Value → Bool
  | geometry _ => true
  | _ => false

/-- Values of different kinds differ; numbers and coordinates are compared as numbers. -/
protected def beq : Value → Value → Bool
  | number a, number b => a == b
  | bool a, bool b => a == b
  | unit, unit => true
  | geometry a, geometry b => a == b
  | type a, type b => a == b
  | closure a, closure b => a == b
  | native a, native b => a == b
  | _, _ => false

instance : BEq Value := ⟨Value.beq⟩

/-- The value as results show it. -/
def text : Value → String
  | number x => Decimal.text x
  | bool b => Token.Kind.boolText b
  | unit => "()"
  | geometry g => g.wkt
  | type k => k.name
  | closure c => "Function((" ++ ", ".intercalate c.lambda.params ++ ") => ...)"
  | native f => "Function(" ++ f.name ++ ")"

end Value

end GeoScript
