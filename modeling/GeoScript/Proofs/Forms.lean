import GeoScript.Expr.Basic

/-!
# The form of expressions

**Roles.** Which trees the grammar makes depends on where they stand. Assignments are items of
sequences; sequences are whole programs, bodies of functions and branches of conditions, and a
branch may be a point instead; called are only identifiers and functions. Elsewhere stand values.

**Shapes.** What follows the name of a shape has the form that the name asks for, and no list in it
is empty but the list of a collection.

**Vocabulary.** Which names and numbers may occur is left open. Coordinates are told
from other numbers, since only they may have a sign.
-/

namespace GeoScript

/-- The names and numbers that may occur. -/
structure Vocabulary where
  name : String → Bool
  /-- Numbers that are not coordinates. -/
  literal : Float → Bool
  /-- Numbers that are coordinates. -/
  coordinate : Float → Bool

/-- No restriction. -/
def Vocabulary.any : Vocabulary := ⟨fun _ => true, fun _ => true, fun _ => true⟩

@[simp] theorem Vocabulary.name_any (s : String) : any.name s = true := rfl

@[simp] theorem Vocabulary.literal_any (x : Float) : any.literal x = true := rfl

@[simp] theorem Vocabulary.coordinate_any (x : Float) : any.coordinate x = true := rfl

/-- Where an expression stands. -/
inductive Role where
  | operand | coordinate | item | body | branch
  deriving Repr, DecidableEq

/-- Whether any value may stand here. -/
@[simp] def Role.takesValue : Role → Bool
  | operand | coordinate | item => true
  | body | branch => false

/-- Whether a sequence may stand here. -/
@[simp] def Role.takesSequence : Role → Bool
  | body | branch => true
  | operand | coordinate | item => false

/-- Whether an expression may be called. -/
@[simp] def Expr.isCallee : Expr → Bool
  | .ident .. | .function .. => true
  | _ => false

@[simp] def Body.isPair : Body → Bool
  | .point .. => true
  | _ => false

mutual

/-- Whether an expression may stand in the role. -/
def Expr.fits (V : Vocabulary) (role : Role) : Expr → Bool
  | .number x _ =>
    role.takesValue && (if role = .coordinate then V.coordinate x else V.literal x)
  | .bool _ _ => role.takesValue
  | .ident name _ => role.takesValue && V.name name
  | .typeTag _ _ => role.takesValue
  | .decl name value _ => role = .item && V.name name && value.fits V .operand
  | .seq items _ => role.takesSequence && Expr.fitAll V .item items
  | .geometry kind body _ =>
    (role.takesValue || role = .branch && body.isPair) && body.fits V kind
  | .function params body _ => role.takesValue && params.all V.name && body.fits V .body
  | .call callee args =>
    role.takesValue && callee.isCallee && callee.fits V .operand && Expr.fitAll V .operand args
  | .access target property args =>
    role.takesValue && target.fits V .operand && V.name property && Expr.fitAll V .operand args
  | .binary _ left right => role.takesValue && left.fits V .operand && right.fits V .operand
  | .generate count body _ => role.takesValue && count.fits V .operand && body.fits V .operand
  | .cond condition thenBranch elseBranch _ =>
    role.takesValue && condition.fits V .operand && thenBranch.fits V .branch &&
      elseBranch.fits V .branch
  | .not operand _ => role.takesValue && operand.fits V .operand
  | .neg operand _ => role.takesValue && operand.fits V .operand

def Expr.fitAll (V : Vocabulary) (role : Role) : List Expr → Bool
  | [] => true
  | e :: es => e.fits V role && Expr.fitAll V role es

def Element.fits (V : Vocabulary) : Element → Bool
  | .pair x y => x.fits V .coordinate && y.fits V .coordinate
  | .value e => e.fits V .operand

def Element.fitAll (V : Vocabulary) : List Element → Bool
  | [] => true
  | e :: es => e.fits V && Element.fitAll V es

/-- Rings are not empty. -/
def Element.fitRings (V : Vocabulary) : List (List Element) → Bool
  | [] => true
  | r :: rs => !r.isEmpty && Element.fitAll V r && Element.fitRings V rs

/-- Neither are lists of them. -/
def Element.fitPolygons (V : Vocabulary) : List (List (List Element)) → Bool
  | [] => true
  | p :: ps => !p.isEmpty && Element.fitRings V p && Element.fitPolygons V ps

/-- Whether this may stand behind the name of a shape. -/
def Body.fits (V : Vocabulary) (kind : Geometry.Kind) : Body → Bool
  | .empty => true
  | .point x y => kind = .point && x.fits V .coordinate && y.fits V .coordinate
  | .elements items =>
    (kind = .collection || (kind = .lineString || kind = .multiPoint) && !items.isEmpty) &&
      Element.fitAll V items
  | .rings rings =>
    (kind = .polygon || kind = .multiLineString) && !rings.isEmpty && Element.fitRings V rings
  | .polygons polygons =>
    kind = .multiPolygon && !polygons.isEmpty && Element.fitPolygons V polygons

end

variable {V : Vocabulary}

@[simp] theorem Expr.fitAll_eq_true {role : Role} {es : List Expr} :
    Expr.fitAll V role es = true ↔ ∀ e ∈ es, e.fits V role = true := by
  induction es with
  | nil => simp [Expr.fitAll]
  | cons e es ih => simp [Expr.fitAll, ih]

@[simp] theorem Element.fitAll_eq_true {es : List Element} :
    Element.fitAll V es = true ↔ ∀ e ∈ es, e.fits V = true := by
  induction es with
  | nil => simp [Element.fitAll]
  | cons e es ih => simp [Element.fitAll, ih]

@[simp] theorem Element.fitRings_eq_true {rs : List (List Element)} :
    Element.fitRings V rs = true ↔ ∀ r ∈ rs, r ≠ [] ∧ ∀ e ∈ r, e.fits V = true := by
  induction rs with
  | nil => simp [Element.fitRings]
  | cons r rs ih => simp [Element.fitRings, ih]

@[simp] theorem Element.fitPolygons_eq_true {ps : List (List (List Element))} :
    Element.fitPolygons V ps = true ↔
      ∀ p ∈ ps, p ≠ [] ∧ ∀ r ∈ p, r ≠ [] ∧ ∀ e ∈ r, e.fits V = true := by
  induction ps with
  | nil => simp [Element.fitPolygons]
  | cons p ps ih => simp [Element.fitPolygons, ih]

end GeoScript
