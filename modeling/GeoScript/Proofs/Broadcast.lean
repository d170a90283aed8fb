import GeoScript.Proofs.Arithmetic
import GeoScript.Proofs.Callbacks
import GeoScript.Proofs.Parameters

/-!
# Arithmetic with a point is a deep map

**Theorem (`broadcast_eq_deepMap`).** Let two names stand for a geometry and for a point. Combining the
geometry with the point gives what a deep map of the geometry gives whose function combines its
parameter with the point, and the same holds with the operands the other way round.

The two sides meet in `Geometry.mapCoords`. On the one side that is how a point is combined
(`combine_point_left`, `combine_point_right`). On the other there is a call for each coordinate. All
calls begin in heaps that give the name of the point the same value, since a call changes no scope
that was there; so each of them gives the combination of its own coordinate, whatever went before
(`steady_call`), and a deep map of such calls replaces every coordinate (`steady_deepMap`).
-/

namespace GeoScript

open Heap Pipeline

/-! ## A point beside a geometry -/

namespace Geometry

theorem mapCoords_point (f : Coord → Coord) (c : Coord) :
    (point c).mapCoords f = point (f c) := by
  rw [mapCoords_eq, coords_point, List.map_singleton, refill]
  rfl

theorem combine_point_right (op : ArithOp) (f : Float → Float → Float) (g : Geometry) (q : Coord) :
    combine op f g (point q) = .ok (g.mapCoords fun c => Coord.zipWith f c q) := by
  cases g with
  | point c => rw [mapCoords_point, combine]
  | _ => rfl

theorem combine_point_left (op : ArithOp) (f : Float → Float → Float) (g : Geometry) (q : Coord) :
    combine op f (point q) g = .ok (g.mapCoords fun c => Coord.zipWith f q c) := by
  cases g with
  | point c => rw [mapCoords_point, combine]
  | _ => rfl

end Geometry

/-! ## Deep maps of steady callbacks -/

namespace Effect

variable {I : Heap → Prop} {line : Nat} {cb : Callback Heap} {f : Coord → Coord}

/-- A callback that replaces points one by one makes a deep map replace all coordinates. -/
theorem steady_deepMap (g : Geometry)
    (hcb : ∀ c i, Steady I (cb (.point c) i) (.ok (.point (f c)))) :
    Steady I (Pipeline.deepMap line cb (.geometry g)) (.ok (.geometry (g.mapCoords f))) := by
  have hcoord : ∀ c i, Steady I (mapCoord line cb c i) (.ok (f c)) := by
    intro c i
    refine (hcb c i).bind (y := fun _ => .ok (f c)) fun v hv => ?_
    obtain rfl := Except.ok.inj hv
    exact steady_pure (f c)
  have hwalk := steady_mapFrom (fun c _ => c) (p := fun c => .ok (f c)) g.coords 0 []
    fun x _ => hcoord x.1 x.2
  have hresult : ((g.coords.zipIdx 0).map fun x => x.1).mapM
      (fun c => (.ok (f c) : Except EvalError Coord)) = .ok (g.coords.map f) := by
    rw [List.zipIdx_map_fst]
    exact List.mapM_pure
  rw [hresult] at hwalk
  rw [Walk.deepMap_eq, Geometry.mapCoords_eq]
  exact hwalk.map fun ds => Value.geometry (g.refill ds)

end Effect

/-! ## Names combined -/

namespace Expr

/-- Two names combined by an operator. -/
def combined (op : ArithOp) (left right : String) (p q : Position) : Expr :=
  .binary (.arith op) (.ident left p) (.ident right q)

/-- A name sent through a deep map, with a function of one parameter. The body of a function is a
sequence. -/
def deepMapped (source param : String) (body : Expr) (p q r : Position) : Expr :=
  .binary (.pipe .deepMap) (.ident source p) (.function [param] (.seq [body] q) r)

variable {h : Heap} {left right : String} {l r v : Value}

/-- Combining two names combines what they stand for. -/
theorem runOn_combined {op : ArithOp} (ctx : Context) (hl : h.resolve ctx.scope left = some l)
    (hr : h.resolve ctx.scope right = some r) (hv : Value.arith op l r = .ok v) (p q : Position) :
    ((combined op left right p q).eval ctx).runOn h = (.ok v, h) := by
  have hleft : ((Expr.ident left p).eval ctx).runOn h = (.ok l, h) := by
    rw [Expr.eval, Context.runOn_resolve, hl]
  have hright : ((Expr.ident right q).eval ctx).runOn h = (.ok r, h) := by
    rw [Expr.eval, Context.runOn_resolve, hr]
  rw [combined, Expr.eval, Effect.runOn_bind_ok hleft, Effect.runOn_bind_ok hright, hv]
  rfl

/-- A deep map of a name maps the geometry that it stands for. -/
theorem runOn_deepMapped {source param : String} {g : Geometry} (ctx : Context)
    (hg : h.resolve ctx.scope source = some (.geometry g)) (body : Expr) (p q r : Position) :
    ((deepMapped source param body p q r).eval ctx).runOn h =
      (Pipeline.deepMap p.line (ctx.callElement (.closure
        ⟨⟨[param], .seq [body] q, ⟨ctx.program, r⟩⟩, ctx.scope⟩) p.line) (.geometry g)).runOn h := by
  have hfunction : ((Expr.function [param] (.seq [body] q) r).eval ctx).runOn h =
      (.ok (.closure ⟨⟨[param], .seq [body] q, ⟨ctx.program, r⟩⟩, ctx.scope⟩), h) := by
    rw [Expr.eval]
    rfl
  have hsource : ((Expr.ident source p).eval ctx).runOn h = (.ok (.geometry g), h) := by
    rw [Expr.eval, Context.runOn_resolve, hg]
  rw [deepMapped, Expr.eval, Effect.runOn_bind_ok hfunction, Effect.runOn_bind_ok hsource]
  rfl

end Expr

-- This is how a deep map is read that combines a parameter with a name.
example : (parse "g |* Function(p => p - q)").toOption.any (fun
    | .seq [.binary (.pipe .deepMap) (.ident "g" _) (.function ["p"]
        (.seq [.binary (.arith .sub) (.ident "p" _) (.ident "q" _)] _) _)] _ => true
    | _ => false) := by
  decide +kernel

/-! ## Calls that combine -/

section Calls

variable {scope : ScopeId} {name param : String} {q : Coord} {h : Heap}

/-- Every number of the heap has been handed out, and the name stands for the point. -/
structure Heap.Shows (scope : ScopeId) (name : String) (q : Coord) (h : Heap) : Prop where
  numbered : h.Numbered
  below : scope < h.next
  resolve : h.resolve scope name = some (.point q)

/-- Calls leave names as they are. -/
theorem Heap.Shows.callAt (hs : h.Shows scope name q) {f : Closure} {args : List Value}
    (hf : f.scope < h.next) (ha : ∀ a ∈ args, a.isClosure = false) (limit allowed line : Nat) :
    ((callAt limit allowed f args line).runOn h).2.Shows scope name q := by
  have hkeeps := keeps_callAt limit allowed f args line h
  refine ⟨hs.numbered.callAt hf (fun a hmem => Value.below_of_plain (ha a hmem) _) limit allowed line,
    Nat.lt_of_lt_of_le hs.below hkeeps.next_le, ?_⟩
  have hfoot : Footprint scope (fun _ => False) h _ := hkeeps.footprint
  rw [hfoot.resolve_eq (hs.numbered.lt_of_mem_chain hs.below) not_false, hs.resolve]

section Frames

variable {body : Expr} {origin : Origin}

/-- The first argument of a function of one parameter is what the parameter stands for. -/
theorem resolve_param (hs : h.Shows scope name q) (v i : Value) :
    (h.enter ⟨⟨[param], body, origin⟩, scope⟩ [v, i]).2.resolve h.next param = some v := by
  rw [resolve_enter hs.numbered hs.below]
  simp

theorem resolve_name (hs : h.Shows scope name q) (hne : param ≠ name) (v i : Value) :
    (h.enter ⟨⟨[param], body, origin⟩, scope⟩ [v, i]).2.resolve h.next name = some (.point q) := by
  have hneq : (name == param) = false := by simpa using Ne.symm hne
  rw [resolve_enter hs.numbered hs.below, hs.resolve]
  simp [List.lookup_cons, hneq]

end Frames

/-- **A call that combines** gives the combination and leaves the point where it is, whatever was
called before it. -/
theorem steady_call {op : ArithOp} {params : List String} {left right : String} {s t u : Position}
    {origin : Origin} {args : List Value} {l r v : Value}
    (ha : ∀ a ∈ args, a.isClosure = false) (hv : Value.arith op l r = .ok v)
    (limit allowed line : Nat) :
    let f : Closure := ⟨⟨params, .seq [.combined op left right s t] u, origin⟩, scope⟩
    (∀ h, Heap.Shows scope name q h → (h.enter f args).2.resolve h.next left = some l) →
    (∀ h, Heap.Shows scope name q h → (h.enter f args).2.resolve h.next right = some r) →
    Effect.Steady (Heap.Shows scope name q) (callAt limit (allowed + 1) f args line) (.ok v) := by
  intro f hl hr h hs
  refine ⟨?_, hs.callAt hs.below ha limit (allowed + 1) line⟩
  let ctx : Context := ⟨callAt limit allowed, origin.program, h.next⟩
  have hcombined := Expr.runOn_combined ctx (hl h hs) (hr h hs) hv s t
  rw [runOn_callAt_succ]
  dsimp only
  rw [Expr.eval, Expr.evalSeq, Effect.runOn_bind_ok hcombined]
  rfl

/-- A deep map whose calls replace points one by one replaces all coordinates. -/
theorem deepMapped_of_steady {source : String} {g : Geometry} {f : Coord → Coord} {body : Expr}
    {limit allowed program : Nat} {u v w : Position} (hs : h.Shows scope name q)
    (hg : h.resolve scope source = some (.geometry g))
    (hcall : ∀ c i, Effect.Steady (Heap.Shows scope name q)
      (callAt limit allowed ⟨⟨[param], .seq [body] v, ⟨program, w⟩⟩, scope⟩
        [.point c, .number (Float.ofNat i)] u.line) (.ok (.point (f c)))) :
    (((Expr.deepMapped source param body u v w).eval
      ⟨callAt limit allowed, program, scope⟩).runOn h).1 = .ok (.geometry (g.mapCoords f)) := by
  rw [Expr.runOn_deepMapped _ hg]
  exact (Effect.steady_deepMap g hcall h hs).1

end Calls

/-- **Arithmetic with a point is a deep map**, on either side. The heap is any heap whose numbers have
been handed out, as in every session. -/
theorem broadcast_eq_deepMap {h : Heap} {scope : ScopeId} {source name param : String}
    {g : Geometry} {q : Coord} (hn : h.Numbered) (hscope : scope < h.next)
    (hg : h.resolve scope source = some (.geometry g))
    (hq : h.resolve scope name = some (.point q)) (hp : param ≠ name) (op : ArithOp)
    (limit allowed program : Nat) (s t s' t' u v w : Position) :
    let ctx : Context := ⟨callAt limit (allowed + 1), program, scope⟩
    let outcome (e : Expr) := ((e.eval ctx).runOn h).1
    (∃ r, outcome (.combined op source name s t) = .ok (.geometry r) ∧
      outcome (.deepMapped source param (.combined op param name s' t') u v w) =
        .ok (.geometry r)) ∧
    ∃ r, outcome (.combined op name source s t) = .ok (.geometry r) ∧
      outcome (.deepMapped source param (.combined op name param s' t') u v w) =
        .ok (.geometry r) := by
  intro ctx outcome
  have hshows : h.Shows scope name q := ⟨hn, hscope, hq⟩
  have hplain : ∀ (c : Coord) (i : Nat), ∀ a ∈ [Value.point c, .number (Float.ofNat i)],
      a.isClosure = false := fun c i => Walk.plain_elementArgs (.point c) i
  constructor
  · refine ⟨g.mapCoords fun c => Coord.zipWith op.apply c q, ?_, ?_⟩
    · have hv : Value.arith op (.geometry g) (.point q) = .ok (.geometry _) :=
        congrArg (Except.map _) (Geometry.combine_point_right op op.apply g q)
      exact congrArg Prod.fst (Expr.runOn_combined ctx hg hq hv s t)
    · refine deepMapped_of_steady hshows hg fun c i => ?_
      have hv : Value.arith op (.point c) (.point q) = .ok (.point _) := rfl
      apply steady_call (hplain c i) hv
      · exact fun k hk => resolve_param hk _ _
      · exact fun k hk => resolve_name hk hp _ _
  · refine ⟨g.mapCoords fun c => Coord.zipWith op.apply q c, ?_, ?_⟩
    · have hv : Value.arith op (.point q) (.geometry g) = .ok (.geometry _) :=
        congrArg (Except.map _) (Geometry.combine_point_left op op.apply g q)
      exact congrArg Prod.fst (Expr.runOn_combined ctx hq hg hv s t)
    · refine deepMapped_of_steady hshows hg fun c i => ?_
      have hv : Value.arith op (.point q) (.point c) = .ok (.point _) := rfl
      apply steady_call (hplain c i) hv
      · exact fun k hk => resolve_name hk hp _ _
      · exact fun k hk => resolve_param hk _ _

/-- A polygon beside a collection inside of a collection, less a point. -/
theorem broadcast_eq_deepMap_nested :
    let g : Geometry := .collection [.polygon [[⟨0, 0⟩, ⟨1, 2⟩]], .collection [.point ⟨3, 4⟩]]
    let h := ((Heap.start false 0).2.store 0 "g" (.geometry g)).store 0 "q" (.point ⟨1, 2⟩)
    let p : Position := .start
    let outcome (e : Expr) := ((e.eval ⟨callAt 1 1, 0, 0⟩).runOn h).1
    h.Numbered ∧ 0 < h.next ∧ h.resolve 0 "g" = some (.geometry g) ∧
      h.resolve 0 "q" = some (.point ⟨1, 2⟩) ∧ "p" ≠ "q" ∧
      ∃ r, outcome (.combined .sub "g" "q" p p) = .ok (.geometry r) ∧
        outcome (.deepMapped "g" "p" (.combined .sub "p" "q" p p) p p p) = .ok (.geometry r) := by
  intro g h p outcome
  have hn : h.Numbered := by
    apply Numbered.store
    · exact (numbered_start false 0).store (Value.below_of_plain rfl _)
    · exact Value.below_of_plain rfl _
  have hscope : 0 < h.next := by decide +kernel
  have hg : h.resolve 0 "g" = some (.geometry g) := by rfl
  have hq : h.resolve 0 "q" = some (.point ⟨1, 2⟩) := by rfl
  have hp : "p" ≠ "q" := by decide
  exact ⟨hn, hscope, hg, hq, hp,
    (broadcast_eq_deepMap hn hscope hg hq hp .sub 1 0 0 p p p p p p p).1⟩

end GeoScript
