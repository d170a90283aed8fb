import GeoScript.Proofs.Outline
import GeoScript.Value.Arithmetic

/-!
# The table of arithmetic

**The table.** Two numbers give a number. Beside a geometry a number `n` stands for the point `(n n)`.
Two points combine axis by axis, two lines or two sets of points index by index; a point combines
with every coordinate of anything else, and then the result has the outline of that. Whatever is not
in the table is an error, and which one is in the table too.

**Theorem (`arithWith_iff`).** Arithmetic on values is this table, for every operator and whatever
the operation on numbers is. The table says of a result what it is made of, and not how it is come
by; that it leaves no choice is `eq_mapCoords_iff` for the coordinates and
`IndexByIndex.eq_zipWith` for lists.
-/

namespace GeoScript

namespace Geometry

variable {op : ArithOp} {f : Float → Float → Float} {a b : Geometry}
  {out : Except EvalFault Geometry}

/-- Two lists of the same length combined index by index. -/
structure IndexByIndex (f : Float → Float → Float) (as bs cs : List Coord) : Prop where
  operands : as.length = bs.length
  result : cs.length = as.length
  entries : ∀ (i : Nat) (a b : Coord), as[i]? = some a → bs[i]? = some b →
    cs[i]? = some ⟨f a.x b.x, f a.y b.y⟩

/-- What combining two geometries comes to. -/
inductive Combines (op : ArithOp) (f : Float → Float → Float) :
    Geometry → Geometry → Except EvalFault Geometry → Prop
  | points {a b : Coord} :
    Combines op f (point a) (point b) (.ok (point ⟨f a.x b.x, f a.y b.y⟩))
  | lines {as bs cs : List Coord} : IndexByIndex f as bs cs →
    Combines op f (lineString as) (lineString bs) (.ok (lineString cs))
  | unequalLines {as bs : List Coord} : as.length ≠ bs.length →
    Combines op f (lineString as) (lineString bs) (.error (.shapeMismatch op as.length bs.length))
  | pointSets {as bs cs : List Coord} : IndexByIndex f as bs cs →
    Combines op f (multiPoint as) (multiPoint bs) (.ok (multiPoint cs))
  | unequalPointSets {as bs : List Coord} : as.length ≠ bs.length →
    Combines op f (multiPoint as) (multiPoint bs) (.error (.shapeMismatch op as.length bs.length))
  /-- The point on the left meets every coordinate on the right. -/
  | pointLeft {p : Coord} {g r : Geometry} : g.kind ≠ .point → r.outline = g.outline →
    (r.coords = g.coords.map fun c => ⟨f p.x c.x, f p.y c.y⟩) → Combines op f (point p) g (.ok r)
  /-- The point on the right meets every coordinate on the left. -/
  | pointRight {p : Coord} {g r : Geometry} : g.kind ≠ .point → r.outline = g.outline →
    (r.coords = g.coords.map fun c => ⟨f c.x p.x, f c.y p.y⟩) → Combines op f g (point p) (.ok r)
  | unsupported {a b : Geometry} : a.kind ≠ .point → b.kind ≠ .point →
    (a.kind = b.kind → a.kind ≠ .lineString ∧ a.kind ≠ .multiPoint) →
      Combines op f a b (.error (.unsupported op a.kind b.kind))

theorem indexByIndex_zipWith {as bs : List Coord} (h : as.length = bs.length) :
    IndexByIndex f as bs (List.zipWith (Coord.zipWith f) as bs) where
  operands := h
  result := by rw [List.length_zipWith, h, Nat.min_self]
  entries i a b ha hb := by
    rw [List.getElem?_zipWith, ha, hb]
    rfl

/-- Lists combined index by index leave no choice. -/
theorem IndexByIndex.eq_zipWith {as bs cs : List Coord} (h : IndexByIndex f as bs cs) :
    cs = List.zipWith (Coord.zipWith f) as bs := by
  have hz : IndexByIndex f as bs (List.zipWith (Coord.zipWith f) as bs) :=
    indexByIndex_zipWith h.operands
  apply List.ext_getElem?
  intro i
  by_cases hi : i < as.length
  · have ha := List.getElem?_eq_getElem hi
    have hb := List.getElem?_eq_getElem (h.operands ▸ hi)
    rw [h.entries i _ _ ha hb, hz.entries i _ _ ha hb]
  · rw [List.getElem?_eq_none (by rw [h.result]; omega),
      List.getElem?_eq_none (by rw [hz.result]; omega)]

theorem kind_ne_point {g : Geometry} (h : ∀ p, g = point p → False) : g.kind ≠ .point := by
  intro hk
  cases g with
  | point p => exact h p rfl
  | _ => cases hk

/-- What combining gives is in the table. -/
theorem combines_combine (op : ArithOp) (f : Float → Float → Float) (a b : Geometry) :
    Combines op f a b (combine op f a b) := by
  fun_cases combine op f a b with
  | case1 a b => exact .points
  | case2 as bs =>
    rw [pairwise]
    by_cases h : as.length = bs.length
    · rw [if_pos h]
      exact .lines (indexByIndex_zipWith h)
    · rw [if_neg h]
      exact .unequalLines h
  | case3 as bs =>
    rw [pairwise]
    by_cases h : as.length = bs.length
    · rw [if_pos h]
      exact .pointSets (indexByIndex_zipWith h)
    · rw [if_neg h]
      exact .unequalPointSets h
  | case4 p _ hb =>
    obtain ⟨ho, hc⟩ := eq_mapCoords_iff.1 (rfl : b.mapCoords (Coord.zipWith f p) = _)
    exact .pointLeft (kind_ne_point hb) ho hc
  | case5 _ p ha =>
    obtain ⟨ho, hc⟩ := eq_mapCoords_iff.1 (rfl : (a.mapCoords fun c => Coord.zipWith f c p) = _)
    exact .pointRight (kind_ne_point ha) ho hc
  | case6 _ _ _ hlines hsets ha hb =>
    -- Two lines, two sets of points and anything beside a point have been dealt with.
    refine .unsupported (kind_ne_point ha) (kind_ne_point hb) fun hkind => ?_
    cases a <;> cases b <;> simp_all [kind]

/-- The table leaves no choice. -/
theorem Combines.eq (h : Combines op f a b out) : combine op f a b = out := by
  cases h with
  | points => rfl
  | lines h | pointSets h =>
    rw [combine, pairwise, if_pos h.operands, ← h.eq_zipWith]
    rfl
  | unequalLines h | unequalPointSets h =>
    rw [combine, pairwise, if_neg h]
    rfl
  | pointLeft hg ho hc =>
    rw [eq_mapCoords_iff.2 ⟨ho, hc⟩]
    cases b with
    | point => exact absurd rfl hg
    | _ => rfl
  | pointRight hg ho hc =>
    rw [eq_mapCoords_iff.2 ⟨ho, hc⟩]
    cases a with
    | point => exact absurd rfl hg
    | _ => rfl
  | unsupported ha hb hab => cases a <;> cases b <;> simp_all [combine, kind]

end Geometry

namespace Value

variable {op : ArithOp} {f : Float → Float → Float} {l r : Value} {out : Except EvalFault Value}

/-- The geometry that a value stands for as an operand: a number stands for a point. -/
def operand? : Value → Option Geometry
  | number x => some (.point ⟨x, x⟩)
  | geometry g => some g
  | _ => none

/-- What arithmetic on two values comes to. -/
inductive Computes (op : ArithOp) (f : Float → Float → Float) :
    Value → Value → Except EvalFault Value → Prop
  | numbers {x y : Float} : Computes op f (number x) (number y) (.ok (number (f x y)))
  | geometries {l r : Value} {a b : Geometry} {out : Except EvalFault Geometry} :
    l.isGeometry ∨ r.isGeometry → l.operand? = some a → r.operand? = some b →
      Geometry.Combines op f a b out → Computes op f l r (out.map geometry)
  | mistyped {l r : Value} : l.operand? = none ∨ r.operand? = none →
    Computes op f l r (.error (.typeMismatch (.arithOperands op l.typeName r.typeName)))

/-- **Arithmetic is the table**, and nothing else. -/
theorem arithWith_iff (op : ArithOp) (f : Float → Float → Float) (l r : Value)
    (out : Except EvalFault Value) : arithWith op f l r = out ↔ Computes op f l r out := by
  constructor
  · rintro rfl
    fun_cases arithWith op f l r with
    | case1 x y => exact .numbers
    | case2 x g => exact .geometries (.inr rfl) rfl rfl (Geometry.combines_combine ..)
    | case3 g y => exact .geometries (.inl rfl) rfl rfl (Geometry.combines_combine ..)
    | case4 a b => exact .geometries (.inl rfl) rfl rfl (Geometry.combines_combine ..)
    | case5 h₁ h₂ h₃ h₄ =>
      refine .mistyped ?_
      cases l <;> cases r <;> simp_all [operand?]
  · intro h
    cases h with
    | numbers => rfl
    | geometries hgeometry hl hr h =>
      rw [← h.eq]
      cases l <;> cases r <;> simp_all [operand?, isGeometry, arithWith, Geometry.diagonal]
    | mistyped h => cases l <;> cases r <;> simp_all [operand?, arithWith]

end Value

end GeoScript
