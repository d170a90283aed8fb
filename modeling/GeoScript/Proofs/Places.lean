import GeoScript.Expr.Basic

/-!
# Expressions apart from places

A tree with its places changed is the same tree for every purpose but error reports. `placed f`
changes every place by `f`: with `id` it changes nothing (`Expr.placed_id`), and with a constant it
leaves what two trees that were written differently have in common (`Expr.unplaced`).
-/

namespace GeoScript

mutual

/-- The expression with every place changed. -/
def Expr.placed (f : Position → Position) : Expr → Expr
  | .number x p => .number x (f p)
  | .bool b p => .bool b (f p)
  | .ident name p => .ident name (f p)
  | .typeTag kind p => .typeTag kind (f p)
  | .decl name value p => .decl name (value.placed f) (f p)
  | .seq items p => .seq (Expr.placedAll f items) (f p)
  | .geometry kind body p => .geometry kind (body.placed f) (f p)
  | .function params body p => .function params (body.placed f) (f p)
  | .call callee args => .call (callee.placed f) (Expr.placedAll f args)
  | .access target property args => .access (target.placed f) property (Expr.placedAll f args)
  | .binary op left right => .binary op (left.placed f) (right.placed f)
  | .generate count body p => .generate (count.placed f) (body.placed f) (f p)
  | .cond condition thenBranch elseBranch p =>
    .cond (condition.placed f) (thenBranch.placed f) (elseBranch.placed f) (f p)
  | .not operand p => .not (operand.placed f) (f p)
  | .neg operand p => .neg (operand.placed f) (f p)

def Expr.placedAll (f : Position → Position) : List Expr → List Expr
  | [] => []
  | e :: es => e.placed f :: Expr.placedAll f es

def Element.placed (f : Position → Position) : Element → Element
  | .pair x y => .pair (x.placed f) (y.placed f)
  | .value e => .value (e.placed f)

def Element.placedAll (f : Position → Position) : List Element → List Element
  | [] => []
  | e :: es => e.placed f :: Element.placedAll f es

def Element.placedRings (f : Position → Position) : List (List Element) → List (List Element)
  | [] => []
  | r :: rs => Element.placedAll f r :: Element.placedRings f rs

def Element.placedPolygons (f : Position → Position) :
    List (List (List Element)) → List (List (List Element))
  | [] => []
  | p :: ps => Element.placedRings f p :: Element.placedPolygons f ps

def Body.placed (f : Position → Position) : Body → Body
  | .empty => .empty
  | .point x y => .point (x.placed f) (y.placed f)
  | .elements items => .elements (Element.placedAll f items)
  | .rings rings => .rings (Element.placedRings f rings)
  | .polygons polygons => .polygons (Element.placedPolygons f polygons)

end

/-- The expression without its places. -/
def Expr.unplaced : Expr → Expr := Expr.placed fun _ => .start

variable (f : Position → Position)

@[simp] theorem Expr.placedAll_eq (es : List Expr) : placedAll f es = es.map (placed f) := by
  induction es with
  | nil => rw [placedAll, List.map_nil]
  | cons e es ih => rw [placedAll, List.map_cons, ih]

@[simp] theorem Element.placedAll_eq (es : List Element) : placedAll f es = es.map (placed f) := by
  induction es with
  | nil => rw [placedAll, List.map_nil]
  | cons e es ih => rw [placedAll, List.map_cons, ih]

@[simp] theorem Element.placedRings_eq (rs : List (List Element)) :
    placedRings f rs = rs.map (List.map (placed f)) := by
  induction rs with
  | nil => rw [placedRings, List.map_nil]
  | cons r rs ih => rw [placedRings, List.map_cons, ih, placedAll_eq]

@[simp] theorem Element.placedPolygons_eq (ps : List (List (List Element))) :
    placedPolygons f ps = ps.map (List.map (List.map (placed f))) := by
  induction ps with
  | nil => rw [placedPolygons, List.map_nil]
  | cons p ps ih => rw [placedPolygons, List.map_cons, ih, placedRings_eq]

mutual

theorem Expr.placed_id : ∀ e : Expr, e.placed id = e
  | .number _ _ | .bool _ _ | .ident _ _ | .typeTag _ _ => by rw [Expr.placed, id]
  | .decl _ value _ => by rw [Expr.placed, Expr.placed_id value, id]
  | .seq items _ => by rw [Expr.placed, Expr.placedAll_id items, id]
  | .geometry _ body _ => by rw [Expr.placed, Body.placed_id body, id]
  | .function _ body _ => by rw [Expr.placed, Expr.placed_id body, id]
  | .call callee args => by rw [Expr.placed, Expr.placed_id callee, Expr.placedAll_id args]
  | .access target _ args => by rw [Expr.placed, Expr.placed_id target, Expr.placedAll_id args]
  | .binary _ left right => by rw [Expr.placed, Expr.placed_id left, Expr.placed_id right]
  | .generate count body _ => by rw [Expr.placed, Expr.placed_id count, Expr.placed_id body, id]
  | .cond condition thenBranch elseBranch _ => by
    rw [Expr.placed, Expr.placed_id condition, Expr.placed_id thenBranch,
      Expr.placed_id elseBranch, id]
  | .not operand _ => by rw [Expr.placed, Expr.placed_id operand, id]
  | .neg operand _ => by rw [Expr.placed, Expr.placed_id operand, id]

theorem Expr.placedAll_id : ∀ es : List Expr, Expr.placedAll id es = es
  | [] => by rw [Expr.placedAll]
  | e :: es => by rw [Expr.placedAll, Expr.placed_id e, Expr.placedAll_id es]

theorem Element.placed_id : ∀ e : Element, e.placed id = e
  | .pair x y => by rw [Element.placed, Expr.placed_id x, Expr.placed_id y]
  | .value e => by rw [Element.placed, Expr.placed_id e]

theorem Element.placedAll_id : ∀ es : List Element, Element.placedAll id es = es
  | [] => by rw [Element.placedAll]
  | e :: es => by rw [Element.placedAll, Element.placed_id e, Element.placedAll_id es]

theorem Element.placedRings_id : ∀ rs : List (List Element), Element.placedRings id rs = rs
  | [] => by rw [Element.placedRings]
  | r :: rs => by rw [Element.placedRings, Element.placedAll_id r, Element.placedRings_id rs]

theorem Element.placedPolygons_id :
    ∀ ps : List (List (List Element)), Element.placedPolygons id ps = ps
  | [] => by rw [Element.placedPolygons]
  | p :: ps => by
    rw [Element.placedPolygons, Element.placedRings_id p, Element.placedPolygons_id ps]

theorem Body.placed_id : ∀ b : Body, b.placed id = b
  | .empty => by rw [Body.placed]
  | .point x y => by rw [Body.placed, Expr.placed_id x, Expr.placed_id y]
  | .elements items => by rw [Body.placed, Element.placedAll_id items]
  | .rings rings => by rw [Body.placed, Element.placedRings_id rings]
  | .polygons polygons => by rw [Body.placed, Element.placedPolygons_id polygons]

end

mutual

/-- Changing places twice is changing them once. -/
theorem Expr.placed_placed (f g : Position → Position) :
    ∀ e : Expr, (e.placed f).placed g = e.placed (g ∘ f)
  | .number _ _ | .bool _ _ | .ident _ _ | .typeTag _ _ => by simp only [Expr.placed, Function.comp]
  | .decl _ value _ => by simp only [Expr.placed, Expr.placed_placed f g value, Function.comp]
  | .seq items _ => by simp only [Expr.placed, Expr.placedAll_placedAll f g items, Function.comp]
  | .geometry _ body _ => by simp only [Expr.placed, Body.placed_placed f g body, Function.comp]
  | .function _ body _ => by simp only [Expr.placed, Expr.placed_placed f g body, Function.comp]
  | .call callee args => by
    simp only [Expr.placed, Expr.placed_placed f g callee, Expr.placedAll_placedAll f g args]
  | .access target _ args => by
    simp only [Expr.placed, Expr.placed_placed f g target, Expr.placedAll_placedAll f g args]
  | .binary _ left right => by
    simp only [Expr.placed, Expr.placed_placed f g left, Expr.placed_placed f g right]
  | .generate count body _ => by
    simp only [Expr.placed, Expr.placed_placed f g count, Expr.placed_placed f g body,
      Function.comp]
  | .cond condition thenBranch elseBranch _ => by
    simp only [Expr.placed, Expr.placed_placed f g condition, Expr.placed_placed f g thenBranch,
      Expr.placed_placed f g elseBranch, Function.comp]
  | .not operand _ => by simp only [Expr.placed, Expr.placed_placed f g operand, Function.comp]
  | .neg operand _ => by simp only [Expr.placed, Expr.placed_placed f g operand, Function.comp]

theorem Expr.placedAll_placedAll (f g : Position → Position) :
    ∀ es : List Expr, Expr.placedAll g (Expr.placedAll f es) = Expr.placedAll (g ∘ f) es
  | [] => rfl
  | e :: es => by
    simp only [Expr.placedAll, Expr.placed_placed f g e, Expr.placedAll_placedAll f g es]

theorem Element.placed_placed (f g : Position → Position) :
    ∀ e : Element, (e.placed f).placed g = e.placed (g ∘ f)
  | .pair x y => by
    simp only [Element.placed, Expr.placed_placed f g x, Expr.placed_placed f g y]
  | .value e => by simp only [Element.placed, Expr.placed_placed f g e]

theorem Element.placedAll_placedAll (f g : Position → Position) :
    ∀ es : List Element, Element.placedAll g (Element.placedAll f es) = Element.placedAll (g ∘ f) es
  | [] => rfl
  | e :: es => by
    simp only [Element.placedAll, Element.placed_placed f g e, Element.placedAll_placedAll f g es]

theorem Element.placedRings_placedRings (f g : Position → Position) :
    ∀ rs : List (List Element),
      Element.placedRings g (Element.placedRings f rs) = Element.placedRings (g ∘ f) rs
  | [] => rfl
  | r :: rs => by
    simp only [Element.placedRings, Element.placedAll_placedAll f g r,
      Element.placedRings_placedRings f g rs]

theorem Element.placedPolygons_placedPolygons (f g : Position → Position) :
    ∀ ps : List (List (List Element)),
      Element.placedPolygons g (Element.placedPolygons f ps) = Element.placedPolygons (g ∘ f) ps
  | [] => rfl
  | p :: ps => by
    simp only [Element.placedPolygons, Element.placedRings_placedRings f g p,
      Element.placedPolygons_placedPolygons f g ps]

theorem Body.placed_placed (f g : Position → Position) :
    ∀ b : Body, (b.placed f).placed g = b.placed (g ∘ f)
  | .empty => rfl
  | .point x y => by simp only [Body.placed, Expr.placed_placed f g x, Expr.placed_placed f g y]
  | .elements items => by simp only [Body.placed, Element.placedAll_placedAll f g items]
  | .rings rings => by simp only [Body.placed, Element.placedRings_placedRings f g rings]
  | .polygons polygons => by
    simp only [Body.placed, Element.placedPolygons_placedPolygons f g polygons]

end

/-- A tree with its places changed is the same tree apart from places. -/
theorem Expr.unplaced_placed (f : Position → Position) (e : Expr) :
    (e.placed f).unplaced = e.unplaced := by
  rw [unplaced, placed_placed]
  rfl

end GeoScript
