import GeoScript.Library.Basic

/-!
# The `math` library

Functions of one number, a few of two, three of any number of numbers, a source of random
numbers, and constants.
-/

namespace GeoScript.Library.Math

/-- The functions of one number. -/
def unary : List (String × (Float → Float)) :=
  [("abs", Float.abs), ("acos", Float.acos), ("acosh", Number.acosh), ("asin", Float.asin),
    ("asinh", Number.asinh), ("atan", Float.atan), ("atanh", Number.atanh), ("cbrt", Float.cbrt),
    ("ceil", Float.ceil), ("cos", Float.cos), ("cosh", Float.cosh), ("exp", Float.exp),
    ("expm1", Number.expm1), ("floor", Float.floor), ("fround", Number.single),
    ("log", Float.log), ("log1p", Number.log1p), ("log10", Float.log10), ("log2", Float.log2),
    ("round", Number.roundHalfUp), ("sign", Number.sign), ("sin", Float.sin),
    ("sinh", Float.sinh), ("sqrt", Float.sqrt), ("tan", Float.tan), ("tanh", Float.tanh),
    ("trunc", Number.truncate)]

/-- The functions of two numbers. -/
def binary : List (String × (Float → Float → Float)) :=
  [("atan2", Float.atan2), ("pow", Float.pow), ("imul", Number.multiply32)]

/-- The square root of the sum of squares. The empty sum is negative zero, to which any number
can be added without a change. -/
def hypot (xs : List Float) : Float :=
  (xs.foldl (fun sum x => sum + x * x) (-0.0)).sqrt

/-- The functions of any number of numbers. -/
def variadic : List (String × (List Float → Float)) :=
  [("max", fun xs => xs.foldl Number.larger (-Number.infinity)),
    ("min", fun xs => xs.foldl Number.smaller Number.infinity),
    ("hypot", hypot)]

def constants : List (String × Float) :=
  [("E", 2.718281828459045), ("LN2", Number.ln2), ("LN10", 2.302585092994046),
    ("LOG2E", 1.4426950408889634), ("LOG10E", 0.4342944819032518), ("PI", Geometry.pi),
    ("SQRT1_2", 0.7071067811865476), ("SQRT2", 1.4142135623730951)]

def exports : List Export :=
  unary.map (fun (name, _) => .function name 1) ++
    binary.map (fun (name, _) => .function name 2) ++
    variadic.map (fun (name, _) => .variadic name) ++
    [.function "random" 0] ++
    constants.map (fun (name, x) => .constant name x)

def builtin? (name : String) : Option Builtin :=
  if name == "random" then some .random
  else
    match unary.lookup name, binary.lookup name, variadic.lookup name with
    | some f, _, _ => some (.function fun args => do
        return .number (f (← numberAt args 0)))
    | _, some f, _ => some (.function fun args => do
        let x ← numberAt args 0
        let y ← numberAt args 1
        return .number (f x y))
    | _, _, some f => some (.function fun args => do
        return .number (f (← args.mapM Value.asNumber)))
    | _, _, _ => none

end Math

def math : Library := ⟨"math", Math.exports, Math.builtin?⟩

end GeoScript.Library
