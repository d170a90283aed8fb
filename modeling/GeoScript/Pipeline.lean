import GeoScript.Effect
import GeoScript.Value.Coercion

/-!
# Pipelines

**Elements.** A line and a set of points have points as elements, a collection has its members;
nothing else has elements. Mapping and filtering visit the elements from left to right and hand
each of them over with its index, counted from zero.

**Coordinates.** A deep map visits every coordinate of a geometry at any depth, as a point.

The callback may fail and may change a state. The first failure ends the walk.
-/

namespace GeoScript.Pipeline

variable {σ : Type}

/-- What is done with an element and its index. -/
abbrev Callback (σ : Type) := Value → Nat → Effect σ Value

/-- Maps a list with indices that start at `i`; `done` holds the results so far, last first. -/
def mapFrom {α β : Type} (f : α → Nat → Effect σ β) : Nat → List α → List β → Effect σ (List β)
  | _, [], done => return done.reverse
  | i, a :: as, done => do
    let b ← f a i
    mapFrom f (i + 1) as (b :: done)

/-- Keeps the elements of a list that pass a test, with indices that start at `i`. -/
def filterFrom {α : Type} (test : α → Nat → Effect σ Bool) :
    Nat → List α → List α → Effect σ (List α)
  | _, [], done => return done.reverse
  | i, a :: as, done => do
    if ← test a i then filterFrom test (i + 1) as (a :: done)
    else filterFrom test (i + 1) as done

/-- The point that a callback has to return. -/
def resultPoint (line : Nat) : Value → Effect σ Coord
  | .geometry (.point c) => return c
  | v => .fail (.typeMismatch (.callbackPoint v.typeName)) line

/-- The geometry that a callback has to return. -/
def resultGeometry (line : Nat) : Value → Effect σ Geometry
  | .geometry g => return g
  | v => .fail (.typeMismatch (.callbackGeometry v.typeName)) line

/-- Maps a coordinate as a point. -/
def mapCoord (line : Nat) (f : Callback σ) (c : Coord) (i : Nat) : Effect σ Coord := do
  resultPoint line (← f (.point c) i)

/-- Maps a member of a collection. -/
def mapMember (line : Nat) (f : Callback σ) (g : Geometry) (i : Nat) : Effect σ Geometry := do
  resultGeometry line (← f (.geometry g) i)

/-- Replaces every element by what the callback makes of it. -/
def map (line : Nat) (f : Callback σ) : Value → Effect σ Value
  | .geometry (.lineString cs) => do
    return .geometry (.lineString (← mapFrom (mapCoord line f) 0 cs []))
  | .geometry (.multiPoint cs) => do
    return .geometry (.multiPoint (← mapFrom (mapCoord line f) 0 cs []))
  | .geometry (.collection gs) => do
    return .geometry (.collection (← mapFrom (mapMember line f) 0 gs []))
  | v => .fail (v.needed .arrayLike) line

/-- Whether the callback wants to keep an element. -/
def keeps {α : Type} (line : Nat) (f : Callback σ) (wrap : α → Value) (a : α) (i : Nat) :
    Effect σ Bool := do
  .ofExcept line (← f (wrap a) i).asBool

/-- Keeps the elements for which the callback gives true. -/
def filter (line : Nat) (f : Callback σ) : Value → Effect σ Value
  | .geometry (.lineString cs) => do
    return .geometry (.lineString (← filterFrom (keeps line f .point) 0 cs []))
  | .geometry (.multiPoint cs) => do
    return .geometry (.multiPoint (← filterFrom (keeps line f .point) 0 cs []))
  | .geometry (.collection gs) => do
    return .geometry (.collection (← filterFrom (keeps line f .geometry) 0 gs []))
  | v => .fail (v.needed .arrayLike) line

/-- Maps a coordinate and counts it. -/
def mapCounted (line : Nat) (f : Callback σ) (c : Coord) : StateT Nat (Effect σ) Coord := do
  let i ← get
  let c ← mapCoord line f c i
  set (i + 1)
  return c

/-- Replaces every coordinate at any depth by what the callback makes of it. -/
def deepMap (line : Nat) (f : Callback σ) : Value → Effect σ Value
  | .geometry g => do
    return .geometry (← (g.traverse (mapCounted line f)).run' 0)
  | v => .fail (.typeMismatch (.deepMapSource v.typeName)) line

/-! ## Repetition -/

/-- How often a repetition is to be done. -/
def repetitions : Value → Except EvalFault Nat
  | .number x =>
    match Number.whole? x with
    | some (.ofNat n) =>
      if n ≤ maxElements then .ok n else .error (.generate (.countAboveLimit x))
    | _ => .error (.generate (.countNotNatural x))
  | v => .error (.generate (.countType v.typeName))

/-- The geometry that a repeated function has to return. -/
def repeatedGeometry (line : Nat) : Value → Effect σ Geometry
  | .geometry g => return g
  | v => .fail (.generate (.resultType v.typeName)) line

/-- Calls a function with `i`, `i + 1`, …, `count` times. -/
def repeatFrom (line : Nat) (f : Nat → Effect σ Value) :
    (count i : Nat) → List Geometry → Effect σ (List Geometry)
  | 0, _, done => return done.reverse
  | count + 1, i, done => do
    let g ← repeatedGeometry line (← f i)
    repeatFrom line f count (i + 1) (g :: done)

/-- A collection of copies of a geometry, or of what a function returns for each index. -/
def generate (line : Nat) (call : Value → Nat → Effect σ Value) (count body : Value) :
    Effect σ Value := do
  let n ← .ofExcept line (repetitions count)
  match body with
  | .geometry g => return .geometry (.collection (List.replicate n g))
  | f =>
    if f.isCallable then return .geometry (.collection (← repeatFrom line (call f) n 0 []))
    else .fail (.generate (.bodyType f.typeName)) line

end GeoScript.Pipeline
