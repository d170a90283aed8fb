import GeoScript.Proofs.Doubles
import GeoScript.Proofs.Flattening
import GeoScript.Proofs.Transparency

/-!
# Equality of values

**Numbers.** A double that is not `NaN` equals itself and, if it is a zero, the other zero. So
equality of doubles is symmetric and transitive, and fails to be reflexive at `NaN` alone
(`float_beq_self`).

**Geometries** are equal when they have the same outline and equal coordinates, one by one
(`Geometry.beq_iff`). The outline holds the shape and the nesting of everything inside, so shapes
that are written alike are told apart. Everything else is read off the two lists of coordinates.

**Closures** are known by their literal and by the scope they were made in. Whether a scope keeps a
closure as it is or as one of its own, it gives back one that is equal.

**Theorem (`Value.equality_lawful`).** Equality of values is symmetric and transitive, it holds
between values of the same kind only, and a value equals itself unless it is or holds a `NaN`.
-/

namespace GeoScript

/-! ## Numbers -/

/-- **A double equals itself unless it is `NaN`.** -/
theorem float_beq_self (x : Float) : (x == x) = true ↔ ¬ x.isNaN = true := by
  rw [Float.beq_self_iff, Float.isNaN_eq_decide_eq_nan, decide_eq_true_iff]

namespace Coord

/-- One of the two numbers is `NaN`. -/
def HasNaN (c : Coord) : Prop := c.x.isNaN = true ∨ c.y.isNaN = true

theorem beq_iff (c d : Coord) : (c == d) = true ↔ (c.x == d.x) = true ∧ (c.y == d.y) = true := by
  show (c.x == d.x && c.y == d.y) = true ↔ _
  rw [Bool.and_eq_true]

instance : PartialEquivBEq Coord where
  symm {c d} h := by
    rw [beq_iff] at h ⊢
    exact ⟨BEq.symm h.1, BEq.symm h.2⟩
  trans {b c d} hbc hcd := by
    rw [beq_iff] at hbc hcd ⊢
    exact ⟨BEq.trans hbc.1 hcd.1, BEq.trans hbc.2 hcd.2⟩

theorem beq_self (c : Coord) : (c == c) = true ↔ ¬ c.HasNaN := by
  rw [beq_iff, float_beq_self, float_beq_self, HasNaN, not_or]

end Coord

/-! ## Lists -/

section Lists

variable {α γ σ : Type} [BEq α] [BEq γ]

instance partialEquivBEqList [PartialEquivBEq α] : PartialEquivBEq (List α) where
  symm {as bs} h := by
    induction as generalizing bs with
    | nil => cases bs <;> simp_all
    | cons a as ih =>
      cases bs with
      | nil => simp at h
      | cons b bs =>
        rw [List.cons_beq_cons, Bool.and_eq_true] at h ⊢
        exact ⟨BEq.symm h.1, ih h.2⟩
  trans {as bs cs} hab hbc := by
    induction as generalizing bs cs with
    | nil =>
      cases bs with
      | nil => exact hbc
      | cons b bs => simp at hab
    | cons a as ih =>
      cases bs with
      | nil => simp at hab
      | cons b bs =>
        cases cs with
        | nil => simp at hbc
        | cons c cs =>
          rw [List.cons_beq_cons, Bool.and_eq_true] at hab hbc ⊢
          exact ⟨BEq.trans hab.1 hbc.1, ih hab.2 hbc.2⟩

theorem list_beq_self (as : List α) : (as == as) = true ↔ ∀ a ∈ as, (a == a) = true := by
  induction as with
  | nil => simp
  | cons a as ih => rw [List.cons_beq_cons, Bool.and_eq_true, ih, List.forall_mem_cons]

theorem append_beq_append {as bs cs ds : List α} (hlength : as.length = bs.length) :
    (as ++ cs == bs ++ ds) = (as == bs && cs == ds) := by
  induction as generalizing bs with
  | nil =>
    obtain rfl := List.eq_nil_of_length_eq_zero hlength.symm
    rfl
  | cons a as ih =>
    cases bs with
    | nil => cases hlength
    | cons b bs =>
      rw [List.cons_append, List.cons_append, List.cons_beq_cons, List.cons_beq_cons,
        ih (Nat.succ.inj hlength), Bool.and_assoc]

/-- Two lists are equal when their entries have the same shapes, and all that is in the entries is
equal when it is listed one after the other. -/
theorem list_beq_iff_flatMap {shape : α → σ} {inside : α → List γ}
    (hlength : ∀ a b, shape a = shape b → (inside a).length = (inside b).length)
    {as bs : List α}
    (h : ∀ a ∈ as, ∀ b, (a == b) = true ↔ shape a = shape b ∧ (inside a == inside b) = true) :
    (as == bs) = true ↔
      as.map shape = bs.map shape ∧ (as.flatMap inside == bs.flatMap inside) = true := by
  induction as generalizing bs with
  | nil => cases bs <;> simp
  | cons a as ih =>
    cases bs with
    | nil => simp
    | cons b bs =>
      obtain ⟨hhead, htail⟩ := List.forall_mem_cons.1 h
      rw [List.cons_beq_cons, Bool.and_eq_true, hhead b, ih htail, List.map_cons, List.map_cons,
        List.cons.injEq, List.flatMap_cons, List.flatMap_cons]
      by_cases hshape : shape a = shape b
      · rw [append_beq_append (hlength a b hshape), Bool.and_eq_true]
        simp only [hshape, true_and]
        exact and_left_comm
      · simp only [hshape, false_and]

end Lists

/-! ## Geometries -/

namespace Geometry

theorem beq_line_iff (cs ds : List Coord) :
    (cs == ds) = true ↔ cs.length = ds.length ∧ (cs == ds) = true :=
  ⟨fun h => ⟨List.length_eq_of_beq h, h⟩, And.right⟩

theorem beq_rings_iff (rs ss : List (List Coord)) : (rs == ss) = true ↔
    rs.map List.length = ss.map List.length ∧ (rs.flatten == ss.flatten) = true := by
  have hlength : ∀ r s : List Coord, r.length = s.length → (id r).length = (id s).length :=
    fun _ _ h => h
  rw [list_beq_iff_flatMap hlength fun r _ => beq_line_iff r, List.flatMap_id, List.flatMap_id]

theorem beq_polygons_iff (ps qs : List (List (List Coord))) : (ps == qs) = true ↔
    ps.map (List.map List.length) = qs.map (List.map List.length) ∧
      (ps.flatten.flatten == qs.flatten.flatten) = true := by
  have hlength : ∀ p q : List (List Coord), p.map List.length = q.map List.length →
      p.flatten.length = q.flatten.length := by
    intro p q h
    rw [List.length_flatten, List.length_flatten, h]
  rw [list_beq_iff_flatMap hlength fun p _ => beq_rings_iff p, List.flatMap_def, List.flatMap_def,
    List.flatten_flatten, List.flatten_flatten]

theorem beqMembers_eq (as bs : List Geometry) : beqMembers as bs = (as == bs) := by
  induction as generalizing bs with
  | nil => cases bs <;> rfl
  | cons a as ih =>
    cases bs with
    | nil => rfl
    | cons b bs =>
      rw [beqMembers, ih, List.cons_beq_cons]
      rfl

theorem outlines_eq_map (gs : List Geometry) : outlines gs = gs.map outline := by
  induction gs with
  | nil => rfl
  | cons g gs ih => rw [outlines, ih, List.map_cons]

/-- **Equal geometries** have the same outline and equal coordinates in the same order. -/
theorem beq_iff (a b : Geometry) :
    (a == b) = true ↔ a.outline = b.outline ∧ (a.coords == b.coords) = true := by
  show beq a b = true ↔ _
  induction a using induction_members generalizing b with
  | leaf a ha =>
    cases a with
    | collection as => exact absurd rfl ha
    | point c => cases b <;> simp [beq, outline]
    | lineString cs | multiPoint cs => cases b <;> simp [beq, outline, ← beq_line_iff]
    | polygon rs | multiLineString rs => cases b <;> simp [beq, outline, beq_rings_iff]
    | multiPolygon ps => cases b <;> simp [beq, outline, beq_polygons_iff]
  | collection as ih =>
    cases b with
    | collection bs =>
      rw [beq, beqMembers_eq, outline, outline, Outline.collection.injEq, outlines_eq_map,
        outlines_eq_map, coords_collection, coords_collection]
      exact list_beq_iff_flatMap (fun a b h => (refill_coords b a h).1) ih
    | _ => simp [beq, outline]

instance : PartialEquivBEq Geometry where
  symm {a b} h := by
    rw [beq_iff] at h ⊢
    exact ⟨h.1.symm, BEq.symm h.2⟩
  trans {a b c} hab hbc := by
    rw [beq_iff] at hab hbc ⊢
    exact ⟨hab.1.trans hbc.1, BEq.trans hab.2 hbc.2⟩

/-- A geometry equals itself unless there is a `NaN` somewhere inside. -/
theorem beq_self (g : Geometry) :
    (g == g) = true ↔ ¬ ∃ address c, g.At address c ∧ c.HasNaN := by
  rw [beq_iff, list_beq_self]
  simp only [Coord.beq_self, true_and]
  constructor
  · rintro h ⟨address, c, hat, hnan⟩
    exact h c (List.of_mem_zip (((leftToRight_coords g).stands_iff address c).1 hat)).2 hnan
  · intro h c hc hnan
    obtain ⟨address, hat⟩ := (leftToRight_coords g).exists_address hc
    exact h ⟨address, c, hat, hnan⟩

end Geometry

/-! ## Values -/

theorem Closure.beq_iff (f g : Closure) : (f == g) = true ↔ f.key = g.key := by
  show (f.key == g.key) = true ↔ _
  rw [beq_iff_eq]

namespace Value

/-- The value is `NaN`, or a geometry with a `NaN` at some address inside. -/
def HoldsNaN : Value → Prop
  | number x => x.isNaN = true
  | geometry g => ∃ address c, g.At address c ∧ c.HasNaN
  | _ => False

/-- What makes values equal, kind by kind. -/
inductive Equal : Value → Value → Prop
  | number {x y : Float} : (x == y) = true → Equal (number x) (number y)
  | bool (b : Bool) : Equal (bool b) (bool b)
  | unit : Equal unit unit
  | geometry {a b : Geometry} : (a == b) = true → Equal (geometry a) (geometry b)
  | type (k : Geometry.Kind) : Equal (type k) (type k)
  | closure {f g : Closure} : f.key = g.key → Equal (closure f) (closure g)
  | native (f : Native) : Equal (native f) (native f)

theorem beq_iff (v w : Value) : (v == w) = true ↔ Equal v w := by
  show Value.beq v w = true ↔ _
  constructor
  · intro h
    cases v <;> cases w <;> simp only [Value.beq, Bool.false_eq_true, beq_iff_eq] at h
    case number.number => exact .number h
    case bool.bool => exact h ▸ .bool _
    case unit.unit => exact .unit
    case geometry.geometry => exact .geometry h
    case type.type => exact h ▸ .type _
    case closure.closure => exact .closure ((Closure.beq_iff _ _).1 h)
    case native.native => exact h ▸ .native _
  · intro h
    cases h with
    | number h => exact h
    | geometry h => exact h
    | closure h => exact (Closure.beq_iff _ _).2 h
    | unit => rfl
    | bool b => exact beq_self_eq_true b
    | type k => exact beq_self_eq_true k
    | native f => exact beq_self_eq_true f

instance : PartialEquivBEq Value where
  symm {v w} h := by
    rw [beq_iff] at h ⊢
    cases h with
    | number h => exact .number (BEq.symm h)
    | geometry h => exact .geometry (BEq.symm h)
    | closure h => exact .closure h.symm
    | bool | unit | type | native => constructor
  trans {u v w} huv hvw := by
    rw [beq_iff] at huv hvw ⊢
    cases huv with
    | number h =>
      cases hvw with
      | number k => exact .number (BEq.trans h k)
    | geometry h =>
      cases hvw with
      | geometry k => exact .geometry (BEq.trans h k)
    | closure h =>
      cases hvw with
      | closure k => exact .closure (h.trans k)
    | bool | unit | type | native => exact hvw

/-- Equal values are of one kind; geometries that are equal have the same shape. -/
theorem Equal.kind {v w : Value} (h : Equal v w) :
    v.typeName = w.typeName ∧ v.isClosure = w.isClosure := by
  cases h with
  | geometry h =>
    refine ⟨congrArg TypeName.geometry ?_, rfl⟩
    exact Geometry.kind_eq_of_outline ((Geometry.beq_iff _ _).1 h).1
  | number | bool | unit | type | closure | native => exact ⟨rfl, rfl⟩

theorem beq_self (v : Value) : (v == v) = true ↔ ¬ v.HoldsNaN := by
  cases v with
  | number x => exact float_beq_self x
  | geometry g => exact Geometry.beq_self g
  | bool b => exact iff_of_true (beq_self_eq_true b) id
  | unit => exact iff_of_true rfl id
  | type k => exact iff_of_true (beq_self_eq_true k) id
  | closure f => exact iff_of_true ((Closure.beq_iff f f).2 rfl) id
  | native f => exact iff_of_true (beq_self_eq_true f) id

end Value

/-! ## Closures in scopes -/

namespace Heap

variable {h : Heap} {s : ScopeId}

theorem resolve_store_self (hs : s ∈ h.scopes) (name : String) (v : Value) :
    (h.store s name v).resolve s name = some v := by
  rw [resolve, chain, List.findSome?_cons, local?_store_self hs]

/-- A value that is stored again, under whatever name in whatever scope, is still found where it was
stored first. -/
theorem resolve_store_copy (hs : s ∈ h.scopes) (t : ScopeId) (name other : String) (v : Value) :
    ((h.store s name v).store t other v).resolve s name = some v := by
  have hs' : s ∈ (h.store s name v).scopes := mem_scopes_store.2 hs
  by_cases hsame : s = t ∧ name = other
  · obtain ⟨rfl, rfl⟩ := hsame
    exact resolve_store_self hs' name v
  · have hother : s = t → name ≠ other := fun hst hname => hsame ⟨hst, hname⟩
    rw [resolve, chain, List.findSome?_cons, local?_store_ne hother, local?_store_self hs]

end Heap

/-- A function that is declared and then compared with itself is equal to itself. -/
theorem runOn_equality_declared (ctx : Context) {h : Heap} (hs : ctx.scope ∈ h.scopes)
    (name : String) (params : List String) (body : Expr) (p q : Position) :
    let bound := (((Expr.decl name (.function params body p) q).eval ctx).runOn h).2
    ((Expr.binary (.equality false) (.ident name q) (.ident name q)).eval ctx).runOn bound =
      (.ok (.bool true), bound) := by
  intro bound
  let f : Closure := ⟨⟨params, body, ⟨ctx.program, p⟩⟩, ctx.scope⟩
  have hbound : bound = h.store ctx.scope name (.closure f) := rfl
  have hread : ((Expr.ident name q).eval ctx).runOn bound = (.ok (.closure f), bound) := by
    show (ctx.resolve name q.line).runOn bound = _
    rw [Context.runOn_resolve, hbound, Heap.resolve_store_self hs]
  have hself : (Value.closure f == Value.closure f) = true := (Value.beq_self _).2 id
  rw [Expr.eval, Effect.runOn_bind_ok hread, Effect.runOn_bind_ok hread, Effect.runOn_pure, hself]
  rfl

/-! ## The theorem -/

/-- **Equality of values** is a partial equivalence that holds within one kind only and is not
reflexive at `NaN` alone. A closure that is read again from the binding that defines it, or from a
scope that it was copied to, is equal to what it was. -/
theorem Value.equality_lawful :
    (∀ v w : Value, (v == w) = (w == v)) ∧
    (∀ u v w : Value, (u == v) = true → (v == w) = true → (u == w) = true) ∧
    (∀ v w : Value, (v == w) = true → v.typeName = w.typeName ∧ v.isClosure = w.isClosure) ∧
    (∀ v : Value, (v == v) = true ↔ ¬ v.HoldsNaN) ∧
    (∀ (h : Heap) (s t : ScopeId) (name other : String) (f : Closure),
      s ∈ h.scopes → t ∈ h.scopes →
        ∃ u v w, (h.store s name (.closure f)).resolve s name = some u ∧
          ((h.store s name (.closure f)).store t other u).resolve s name = some v ∧
          ((h.store s name (.closure f)).store t other u).resolve t other = some w ∧
          (u == .closure f) = true ∧ (v == u) = true ∧ (w == u) = true) ∧
    (∀ (ctx : Context) (h : Heap) (name : String) (params : List String) (body : Expr)
      (p q : Position), ctx.scope ∈ h.scopes →
        let bound := (((Expr.decl name (.function params body p) q).eval ctx).runOn h).2
        ((Expr.binary (.equality false) (.ident name q) (.ident name q)).eval ctx).runOn bound =
          (.ok (.bool true), bound)) := by
  refine ⟨fun v w => BEq.comm, fun u v w => BEq.trans, fun v w h => ((beq_iff v w).1 h).kind,
    beq_self, ?_, fun ctx h name params body p q hs =>
      runOn_equality_declared ctx hs name params body p q⟩
  intro h s t name other f hs ht
  have hself : (closure f == closure f) = true := (beq_self _).2 id
  refine ⟨_, _, _, Heap.resolve_store_self hs name _, Heap.resolve_store_copy hs t name other _, ?_,
    hself, hself, hself⟩
  exact Heap.resolve_store_self (Heap.mem_scopes_store.2 ht) other _

/-- The two zeros, and a function that is declared at the root, copied to a child and compared. -/
theorem Value.equality_lawful_zeros :
    let p : Position := .start
    let h := ((Heap.empty 0).newRoot.2.newChild 0).2
    let f : Closure := ⟨⟨["x"], .ident "x" p, ⟨0, p⟩⟩, 0⟩
    let ctx : Context := ⟨callAt 1 1, 0, 1⟩
    ((number 0 == number (-0)) = true ∧ (number (-0) == number 0) = true ∧
      (number 0 == number 0) = true) ∧
    ((number 0).typeName = (number (-0)).typeName) ∧
    (0 ∈ h.scopes ∧ 1 ∈ h.scopes ∧
      ∃ u v w, (h.store 0 "f" (.closure f)).resolve 0 "f" = some u ∧
        ((h.store 0 "f" (.closure f)).store 1 "g" u).resolve 0 "f" = some v ∧
        ((h.store 0 "f" (.closure f)).store 1 "g" u).resolve 1 "g" = some w ∧
        (u == .closure f) = true ∧ (v == u) = true ∧ (w == u) = true) ∧
    (ctx.scope ∈ h.scopes ∧
      let bound := (((Expr.decl "f" (.function ["x"] (.ident "x" p) p) p).eval ctx).runOn h).2
      ((Expr.binary (.equality false) (.ident "f" p) (.ident "f" p)).eval ctx).runOn bound =
        (.ok (.bool true), bound)) := by
  intro p h f ctx
  obtain ⟨-, htrans, hkind, -, hcopy, hdeclared⟩ := equality_lawful
  have hzero : (number 0 == number (-0)) = true := by decide +kernel
  have hzero' : (number (-0) == number 0) = true := by decide +kernel
  have hroot : 0 ∈ h.scopes := by decide +kernel
  have hchild : 1 ∈ h.scopes := by decide +kernel
  exact ⟨⟨hzero, hzero', htrans _ _ _ hzero hzero'⟩, (hkind _ _ hzero).1,
    ⟨hroot, hchild, hcopy h 0 1 "f" "g" f hroot hchild⟩,
    hchild, hdeclared ctx h "f" ["x"] (.ident "x" p) p p hchild⟩

end GeoScript
