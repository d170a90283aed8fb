import GeoScript.Expr.Basic
import GeoScript.SyntaxError

/-!
# Evaluation errors

An error is a cause and the line of the expression that failed. Causes are data; their names and
their wording are derived from them here and nowhere else.
-/

namespace GeoScript

/-- What kind of value something is, as messages name it. -/
inductive TypeName where
  | number | boolean | unit | type | function
  | geometry (kind : Geometry.Kind)
  deriving Repr, DecidableEq, Inhabited

def TypeName.text : TypeName → String
  | number => "Number"
  | boolean => "Boolean"
  | unit => "Unit"
  | type => "Type"
  | function => "Function"
  | geometry k => k.name

/-- The most elements that one repetition or one constructor may produce, `2 ^ 24`. -/
def maxElements : Nat := 16777216

/-- What a value was needed as. -/
inductive Wanted where
  | number | boolean | function | geometry | point | arrayLike | pointsList | coordinate
  deriving Repr, DecidableEq, Inhabited

def Wanted.text : Wanted → String
  | number => "Number"
  | boolean => "Boolean"
  | function => "Function"
  | geometry => "geometry"
  | point => "Point"
  | arrayLike => "array-like geometry"
  | pointsList => "geometry with points list"
  | coordinate => "Point in coordinate list"

/-- The integers that library functions and accessors take. -/
inductive Quantity where
  | index | precision | pointCount | gridWidth | gridHeight
  deriving Repr, DecidableEq, Inhabited

def Quantity.text : Quantity → String
  | index => "index"
  | precision => "precision"
  | pointCount => "point count"
  | gridWidth => "grid width"
  | gridHeight => "grid height"

/-- Ways in which a value can be of the wrong type. -/
inductive Mismatch where
  | expected (wanted : Wanted) (got : TypeName)
  | arithOperands (op : ArithOp) (left right : TypeName)
  | compareOperands (op : CompareOp) (left right : TypeName)
  | concatOperands (left right : TypeName)
  | pipeTarget (kind : PipeKind) (got : TypeName)
  | deepMapSource (got : TypeName)
  | accessTarget (property : String) (got : TypeName)
  | roundOperand (got : TypeName)
  | collectionMember (got : TypeName)
  | callbackPoint (got : TypeName)
  | callbackGeometry (got : TypeName)
  | notInteger (what : Quantity) (got : Float)
  | negative (what : Quantity) (got : Int)
  deriving Repr, DecidableEq, Inhabited

/-- A symbol between backticks. -/
def Symbol.quoted (s : Symbol) : String := "`" ++ s.text ++ "`"

def Mismatch.message : Mismatch → String
  | expected wanted got => "expected " ++ wanted.text ++ ", got " ++ got.text
  | arithOperands op l r =>
    op.symbol.quoted ++ " expects numbers or geometries, got " ++ l.text ++ " and " ++ r.text
  | compareOperands op l r =>
    op.symbol.quoted ++ " expects numbers, got " ++ l.text ++ " and " ++ r.text
  | concatOperands l r =>
    Symbol.plusPlus.quoted ++ " expects geometries, got " ++ l.text ++ " and " ++ r.text
  | pipeTarget kind got =>
    kind.symbol.quoted ++ " expects a Function on the right, got " ++ got.text
  | deepMapSource got => Symbol.pipeStar.quoted ++ " expects a geometry, got " ++ got.text
  | accessTarget property got => "`:" ++ property ++ "` expects a geometry, got " ++ got.text
  | roundOperand got => "`Round` expects a Number or geometry, got " ++ got.text
  | collectionMember got =>
    "GeometryCollection members must be geometries, got " ++ got.text
  | callbackPoint got => "callback must return a Point, got " ++ got.text
  | callbackGeometry got => "callback must return a geometry, got " ++ got.text
  | notInteger what got => what.text ++ " must be an integer, got " ++ Decimal.text got
  | negative what got => what.text ++ " must not be negative, got " ++ toString got

/-- Ways in which a repetition can fail before it starts or at one of its results. -/
inductive GenerateFault where
  | countAboveLimit (count : Float)
  | countNotNatural (count : Float)
  | countType (got : TypeName)
  | bodyType (got : TypeName)
  | resultType (got : TypeName)
  deriving Repr, DecidableEq, Inhabited

def GenerateFault.message : GenerateFault → String
  | countAboveLimit n =>
    "count " ++ Decimal.text n ++ " exceeds the limit of " ++ toString maxElements
  | countNotNatural n => "count must be a non-negative integer, got " ++ Decimal.text n
  | countType got => "count must be a Number, got " ++ got.text
  | bodyType got => "expected a Function or geometry, got " ++ got.text
  | resultType got => "function must return a geometry, got " ++ got.text

/-- How many arguments something takes. -/
inductive Arity where
  | exactly (count : Nat)
  | atLeast (least : Nat)
  | between (least most : Nat)
  | zeroOrOne
  deriving Repr, DecidableEq, Inhabited

def Arity.text : Arity → String
  | exactly n => toString n
  | atLeast n => "at least " ++ toString n
  | between a b => toString a ++ " to " ++ toString b
  | zeroOrOne => "0 or 1"

/-- Why an evaluation failed. -/
inductive EvalFault where
  | unresolved (name : String)
  | typeMismatch (mismatch : Mismatch)
  | unsupported (op : ArithOp) (left right : Geometry.Kind)
  | shapeMismatch (op : ArithOp) (left right : Nat)
  | notAccessible (property : String) (target : Geometry.Kind)
  | generate (fault : GenerateFault)
  | arity (name : String) (expected : Arity) (got : Nat)
  | indexOutOfRange (index : Float) (length : Nat)
  | recursionLimit (limit : Nat)
  | tooManyElements (what : String) (requested : Float)
  deriving Repr, DecidableEq, Inhabited

namespace EvalFault

/-- The name under which a cause is reported. -/
def name : EvalFault → String
  | unresolved _ => "UnresolvedIdentifier"
  | typeMismatch _ => "TypeMismatch"
  | unsupported .. => "OperationNotSupported"
  | shapeMismatch .. => "ShapeMismatch"
  | notAccessible .. => "PropertyNotAccessible"
  | generate _ => "GenerateTypeError"
  | arity .. => "ArityError"
  | indexOutOfRange .. => "IndexOutOfRange"
  | recursionLimit _ => "RecursionLimit"
  | tooManyElements .. => "TooManyElements"

def message : EvalFault → String
  | unresolved name => "unresolved identifier `" ++ name ++ "`"
  | typeMismatch m => "type mismatch: " ++ m.message
  | unsupported op l r =>
    "operation " ++ op.symbol.quoted ++ " not supported for " ++ l.name ++ " and " ++ r.name
  | shapeMismatch op l r =>
    "shape mismatch: " ++ op.symbol.quoted ++ " needs equal element counts, got " ++
      toString l ++ " and " ++ toString r
  | notAccessible property target =>
    "property `" ++ property ++ "` not accessible on " ++ target.name
  | generate f => "generate: " ++ f.message
  | arity name expected got =>
    "`" ++ name ++ "` expects " ++ expected.text ++ " argument(s), got " ++ toString got
  | indexOutOfRange index length =>
    "index " ++ Decimal.text index ++ " out of range for " ++ toString length ++ " element(s)"
  | recursionLimit limit => "call depth exceeded " ++ toString limit ++ " nested calls"
  | tooManyElements what requested =>
    "`" ++ what ++ "` would produce " ++ Decimal.text requested ++ " elements, the limit is " ++
      toString maxElements

end EvalFault

/-- A cause and the line it is reported at. -/
structure EvalError where
  fault : EvalFault
  line : Nat
  deriving Repr, DecidableEq, Inhabited

def EvalError.message (e : EvalError) : String :=
  "[runtime] line " ++ toString e.line ++ ": " ++ e.fault.message

/-- A type mismatch at a line. -/
def EvalError.mismatch (m : Mismatch) (line : Nat) : EvalError := ⟨.typeMismatch m, line⟩

/-- Whatever the evaluation of a source text can fail with. -/
inductive Error where
  | reading (error : SyntaxError)
  | running (error : EvalError)
  deriving Repr, DecidableEq, Inhabited

namespace Error

/-- The code of a syntax error, the name of the cause of an evaluation error. -/
def name : Error → String
  | .reading e => e.fault.code
  | .running e => e.fault.name

def message : Error → String
  | .reading e => "syntax error " ++ e.message
  | .running e => e.message

end Error

end GeoScript
