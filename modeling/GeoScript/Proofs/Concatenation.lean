import GeoScript.Proofs.Coordinates
import GeoScript.Proofs.InTurn
import GeoScript.Proofs.Rooted

/-!
# Chains of concatenations

**Chains.** `a ++ b ++ c` joins `a` and `b`, and joins `c` to what comes of these. A line takes in
lines, sets of points and points, and so does a set of points; a collection takes in anything. What
takes in what follows keeps its shape. Where something follows that cannot be taken in, a collection
begins, and from there on the chain is one of a collection. So the shape on the left changes at most
once along a chain.

**Theorem (`chain_joined`).** Whatever the shapes are, the coordinates along a chain stay in order,
and the result is the line, the set of points or the collection that this leads to (`Joined`). A
chain of expressions evaluates to it.
-/

namespace GeoScript

namespace Geometry

/-- A list of points without anything around them. -/
def IsSequence (g : Geometry) : Prop := g.kind = .lineString ∨ g.kind = .multiPoint

/-- What lines and sets of points take in. -/
def FitsSequence (g : Geometry) : Prop := g.IsSequence ∨ g.kind = .point

/-- What a collection gets when it takes in a geometry: the members of a collection, or the geometry
itself. -/
def parts : Geometry → List Geometry
  | collection gs => gs
  | g => [g]

/-- What joining a geometry and those that follow comes to. -/
structure Joined (g : Geometry) (gs : List Geometry) (r : Geometry) : Prop where
  coords_eq : r.coords = (g :: gs).flatMap coords
  line : g.kind = .lineString → (∀ x ∈ gs, x.FitsSequence) →
    r = lineString ((g :: gs).flatMap coords)
  points : g.kind = .multiPoint → (∀ x ∈ gs, x.FitsSequence) →
    r = multiPoint ((g :: gs).flatMap coords)
  members (ms : List Geometry) : g = collection ms → r = collection (ms ++ gs.flatMap parts)
  /-- A collection begins where the first geometry does not take in the second. -/
  others (x : Geometry) (rest : List Geometry) : gs = x :: rest → g.kind ≠ .collection →
    ¬ (g.IsSequence ∧ x.FitsSequence) → r = collection (g :: x :: rest.flatMap parts)

/-! ## One step -/

theorem join_lineString (cs : List Coord) {x : Geometry} (h : x.FitsSequence) :
    (lineString cs).join x = lineString (cs ++ x.coords) := by
  cases x with
  | lineString ds => rw [join, coords_lineString]
  | multiPoint ds => rw [join, coords_multiPoint]
  | point d => rw [join, coords_point]
  | _ => simp [FitsSequence, IsSequence, kind] at h

theorem join_multiPoint (cs : List Coord) {x : Geometry} (h : x.FitsSequence) :
    (multiPoint cs).join x = multiPoint (cs ++ x.coords) := by
  cases x with
  | lineString ds => rw [join, coords_lineString]
  | multiPoint ds => rw [join, coords_multiPoint]
  | point d => rw [join, coords_point]
  | _ => simp [FitsSequence, IsSequence, kind] at h

theorem join_collection (ms : List Geometry) (x : Geometry) :
    (collection ms).join x = collection (ms ++ x.parts) := by
  cases x <;> rfl

theorem join_others {g x : Geometry} (hg : g.kind ≠ .collection)
    (h : ¬ (g.IsSequence ∧ x.FitsSequence)) : g.join x = collection [g, x] := by
  cases g with
  | collection ms => exact absurd rfl hg
  | lineString cs | multiPoint cs =>
    cases x with
    | lineString ds | multiPoint ds | point d =>
      exact absurd (by simp [FitsSequence, IsSequence, kind]) h
    | _ => rfl
  | _ => cases x <;> rfl

theorem coords_join (g x : Geometry) : (g.join x).coords = g.coords ++ x.coords := by
  by_cases hcollection : g.kind = .collection
  · cases g with
    | collection ms =>
      rw [join_collection, coords_collection, coords_collection, List.flatMap_append]
      cases x <;> simp [parts]
    | _ => cases hcollection
  · by_cases hfits : g.IsSequence ∧ x.FitsSequence
    · cases g with
      | lineString cs => rw [join_lineString cs hfits.2, coords_lineString, coords_lineString]
      | multiPoint cs => rw [join_multiPoint cs hfits.2, coords_multiPoint, coords_multiPoint]
      | _ => simp [IsSequence, kind] at hfits
    · rw [join_others hcollection hfits, coords_collection]
      simp

/-! ## Chains -/

theorem coords_foldl_join (g : Geometry) (gs : List Geometry) :
    (gs.foldl join g).coords = (g :: gs).flatMap coords := by
  induction gs generalizing g with
  | nil => simp
  | cons x gs ih =>
    rw [List.foldl_cons, ih, List.flatMap_cons, coords_join, List.flatMap_cons, List.flatMap_cons,
      List.append_assoc]

/-- A shape that takes in what fits keeps taking it in. -/
theorem foldl_join_sequence {wrap : List Coord → Geometry}
    (hwrap : ∀ cs x, x.FitsSequence → (wrap cs).join x = wrap (cs ++ x.coords)) (cs : List Coord)
    {gs : List Geometry} (hgs : ∀ x ∈ gs, x.FitsSequence) :
    gs.foldl join (wrap cs) = wrap (cs ++ gs.flatMap coords) := by
  induction gs generalizing cs with
  | nil => simp
  | cons x gs ih =>
    obtain ⟨hx, hrest⟩ := List.forall_mem_cons.1 hgs
    rw [List.foldl_cons, hwrap cs x hx, ih _ hrest, List.flatMap_cons, List.append_assoc]

theorem foldl_join_collection (ms gs : List Geometry) :
    gs.foldl join (collection ms) = collection (ms ++ gs.flatMap parts) := by
  induction gs generalizing ms with
  | nil => simp
  | cons x gs ih =>
    rw [List.foldl_cons, join_collection, ih, List.flatMap_cons, List.append_assoc]

theorem joined_foldl (g : Geometry) (gs : List Geometry) : Joined g gs (gs.foldl join g) where
  coords_eq := coords_foldl_join g gs
  line hg hgs := by
    cases g with
    | lineString cs =>
      rw [foldl_join_sequence (fun cs x => join_lineString cs) cs hgs, List.flatMap_cons,
        coords_lineString]
    | _ => cases hg
  points hg hgs := by
    cases g with
    | multiPoint cs =>
      rw [foldl_join_sequence (fun cs x => join_multiPoint cs) cs hgs, List.flatMap_cons,
        coords_multiPoint]
    | _ => cases hg
  members ms hg := by rw [hg, foldl_join_collection]
  others x rest hgs hg hfits := by
    rw [hgs, List.foldl_cons, join_others hg hfits, foldl_join_collection]
    rfl

end Geometry

/-! ## Chains of expressions -/

namespace Expr

/-- The expressions joined from left to right. -/
def concatenated (e : Expr) (es : List Expr) : Expr := es.foldl (.binary .concat) e

variable {ctx : Context} {h h' t : Heap}

theorem runOn_concat {l r : Expr} {a b : Geometry}
    (hl : (l.eval ctx).runOn h = (.ok (.geometry a), t))
    (hr : (r.eval ctx).runOn t = (.ok (.geometry b), h')) :
    ((Expr.binary .concat l r).eval ctx).runOn h = (.ok (.geometry (a.join b)), h') := by
  rw [Expr.eval, Effect.runOn_bind_ok hl, Effect.runOn_bind_ok hr]
  rfl

/-- What is on the left has been evaluated when the rest of the chain is. -/
theorem runOn_concatenated {e : Expr} {es : List Expr} {g : Geometry} {gs : List Geometry}
    (he : (e.eval ctx).runOn h = (.ok (.geometry g), t))
    (hes : Calls (eval ctx) t es (gs.map .geometry) h') :
    ((concatenated e es).eval ctx).runOn h = (.ok (.geometry (gs.foldl Geometry.join g)), h') := by
  induction es generalizing e g gs t with
  | nil =>
    cases gs with
    | nil =>
      cases hes
      exact he
    | cons x gs => cases hes
  | cons e' es ih =>
    cases gs with
    | nil => cases hes
    | cons x gs =>
      cases hes with
      | cons hx hrest =>
        have hchain := ih (runOn_concat he hx) hrest
        exact hchain

end Expr

/-- **A chain keeps everything in order.** The results of its expressions are joined from left to
right, and what this leads to is `Joined`. -/
theorem chain_joined (g : Geometry) (gs : List Geometry) :
    Geometry.Joined g gs (gs.foldl Geometry.join g) ∧
    ∀ {ctx : Context} {h h' : Heap} {e : Expr} {es : List Expr},
      Calls (Expr.eval ctx) h (e :: es) ((g :: gs).map .geometry) h' →
        ((Expr.concatenated e es).eval ctx).runOn h =
          (.ok (.geometry (gs.foldl Geometry.join g)), h') := by
  refine ⟨Geometry.joined_foldl g gs, fun hcalls => ?_⟩
  cases hcalls with
  | cons he hes => exact Expr.runOn_concatenated he hes

/-- A line that takes in points, and a point that does not. -/
theorem chain_joined_idents :
    let a : Geometry := .lineString [⟨0, 0⟩]
    let b : Geometry := .multiPoint [⟨1, 1⟩]
    let c : Geometry := .point ⟨2, 2⟩
    let h := (((Heap.start false 0).2.store 0 "a" (.geometry a)).store 0 "b" (.geometry b)).store 0
      "c" (.geometry c)
    let ident (name : String) : Expr := .ident name .start
    let ctx : Context := ⟨callAt 1 1, 0, 0⟩
    Calls (Expr.eval ctx) h [ident "a", ident "b", ident "c"] ([a, b, c].map .geometry) h ∧
      a.kind = .lineString ∧ (∀ x ∈ [b, c], x.FitsSequence) ∧
      ((Expr.concatenated (ident "a") [ident "b", ident "c"]).eval ctx).runOn h =
        (.ok (.geometry (.lineString [⟨0, 0⟩, ⟨1, 1⟩, ⟨2, 2⟩])), h) ∧
      c.kind ≠ .collection ∧ ¬ (c.IsSequence ∧ b.FitsSequence) ∧
      [b, .collection [a, b]].foldl Geometry.join c = .collection [c, b, a, b] := by
  intro a b c h ident ctx
  have heval : ∀ name v, h.resolve 0 name = some v →
      ((ident name).eval ctx).runOn h = (.ok v, h) := by
    intro name v hv
    rw [Expr.eval, Context.runOn_resolve, hv]
  have hcalls : Calls (Expr.eval ctx) h [ident "a", ident "b", ident "c"]
      ([a, b, c].map .geometry) h :=
    .cons (heval "a" _ rfl) (.cons (heval "b" _ rfl) (.cons (heval "c" _ rfl) .nil))
  have hfits : ∀ x ∈ [b, c], x.FitsSequence :=
    List.forall_mem_cons.2 ⟨.inl (.inr rfl), List.forall_mem_singleton.2 (.inr rfl)⟩
  have hapart : ¬ (c.IsSequence ∧ b.FitsSequence) := by
    rintro ⟨hline | hpoints, -⟩
    · cases hline
    · cases hpoints
  refine ⟨hcalls, rfl, hfits, ?_, nofun, hapart, ?_⟩
  · rw [(chain_joined a [b, c]).2 hcalls, (chain_joined a [b, c]).1.line rfl hfits]
    simp [a, b, c]
  · exact (chain_joined c [b, .collection [a, b]]).1.others b [.collection [a, b]] rfl nofun hapart

-- This is how a chain is read.
example : (parse "a ++ b ++ c").toOption.any (fun
    | .seq [.binary .concat (.binary .concat (.ident "a" _) (.ident "b" _)) (.ident "c" _)] _ =>
      true
    | _ => false) := by
  decide +kernel

end GeoScript
