import GeoScript.Proofs.DepthFirst
import GeoScript.Proofs.InTurn

/-!
# The walk over the coordinates

**Walks.** A walk calls a function on the coordinates of a geometry in turn, in the order in which
`coords` lists them, and puts the results in their places. The first call that fails ends the walk
(`Walked`). What the function does with its state is left open.

**Theorem (`walk_lawful`).** Every walk is such, and the order is the one from left to right. So
replacing every coordinate by itself changes nothing, replacing twice is replacing once, and the
coordinates of the result are the results. A walk that notes what it is called on notes `coords`.

A walk over a geometry is a walk over the list of its coordinates by `traverse_eq`, and lists are
walked in turn by `inTurn_mapM`.
-/

namespace GeoScript.Geometry

/-- What a walk over a geometry comes to, and the state that it leaves. -/
inductive Walked {σ ε : Type} (f : Coord → ExceptT ε (StateM σ) Coord) (g : Geometry) (s : σ) :
    Except ε Geometry × σ → Prop
  /-- All calls succeed, and their results stand where the coordinates stood. -/
  | done {ds : List Coord} {r : Geometry} {t : σ} : Calls f s g.coords ds t →
    r.outline = g.outline → LeftToRight r.At g.outline.addresses ds → Walked f g s (.ok r, t)
  /-- The first call that fails is the last one that is made. -/
  | failed {before after ds : List Coord} {c : Coord} {e : ε} {t u : σ} :
    g.coords = before ++ c :: after → Calls f s before ds t → (f c).run.run t = (.error e, u) →
      Walked f g s (.error e, u)

/-- Coordinates that are put in place stand where those of the geometry stood. -/
theorem leftToRight_refill {g : Geometry} {ds : List Coord} (h : ds.length = g.coords.length) :
    LeftToRight (g.refill ds).At g.outline.addresses ds := by
  have hplaces := leftToRight_coords (g.refill ds)
  rwa [outline_refill g ds h, coords_refill g ds h] at hplaces

theorem walked_traverse {σ ε : Type} (f : Coord → ExceptT ε (StateM σ) Coord) (g : Geometry)
    (s : σ) : Walked f g s ((g.traverse f).run.run s) := by
  rw [traverse_eq, run_bind]
  have hturn := inTurn_mapM f g.coords s
  generalize (g.coords.mapM f).run.run s = r at hturn
  cases hturn with
  | done hcalls =>
    have hlength := hcalls.length_eq
    exact .done hcalls (outline_refill g _ hlength) (leftToRight_refill hlength)
  | failed hsplit hcalls he => exact .failed hsplit hcalls he

/-! ## Replacing without effects -/

theorem mapCoords_id (g : Geometry) : g.mapCoords id = g := by
  rw [mapCoords_eq, List.map_id]
  exact (refill_coords g g rfl).2

theorem mapCoords_mapCoords (f h : Coord → Coord) (g : Geometry) :
    (g.mapCoords f).mapCoords h = g.mapCoords (h ∘ f) := by
  rw [eq_mapCoords_iff, outline_mapCoords, outline_mapCoords, coords_mapCoords, coords_mapCoords,
    List.map_map]
  exact ⟨rfl, rfl⟩

/-! ## Noting -/

/-- Notes a coordinate and leaves it as it is. -/
def noted (c : Coord) : StateM (List Coord) Coord := modifyGet fun seen => (c, seen ++ [c])

theorem run_mapM_noted (cs seen : List Coord) : (cs.mapM noted).run seen = (cs, seen ++ cs) := by
  induction cs generalizing seen with
  | nil =>
    rw [List.mapM_nil, List.append_nil]
    rfl
  | cons c cs ih =>
    have hrest : (cs.mapM noted).run (seen ++ [c]) = (cs, seen ++ c :: cs) := by
      rw [ih, List.append_assoc]
      rfl
    rw [List.mapM_cons]
    exact congrArg (fun p => (c :: p.1, p.2)) hrest

theorem run_traverse_noted (g : Geometry) : (g.traverse noted).run [] = (g, g.coords) := by
  rw [traverse_eq, StateT.run_bind, run_mapM_noted, List.nil_append]
  exact congrArg (·, g.coords) (refill_coords g g rfl).2

/-- **The walk is lawful**, for every function that may fail and may change a state. -/
theorem walk_lawful (g : Geometry) :
    LeftToRight g.At g.outline.addresses g.coords ∧
    (∀ {σ ε : Type} (f : Coord → ExceptT ε (StateM σ) Coord) (s : σ),
      Walked f g s ((g.traverse f).run.run s)) ∧
    g.mapCoords id = g ∧
    (∀ f h : Coord → Coord, (g.mapCoords f).mapCoords h = g.mapCoords (h ∘ f)) ∧
    (∀ f : Coord → Coord, (g.mapCoords f).coords = g.coords.map f) ∧
    (g.traverse noted).run [] = (g, g.coords) := by
  refine ⟨leftToRight_coords g, fun f s => walked_traverse f g s, mapCoords_id g, ?_, ?_,
    run_traverse_noted g⟩
  · exact fun f h => mapCoords_mapCoords f h g
  · exact fun f => coords_mapCoords f g

end GeoScript.Geometry
