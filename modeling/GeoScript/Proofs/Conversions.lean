import GeoScript.Proofs.Operations

/-!
# Conversions between lists of points

**Lists of points.** `Geometry.IsPoints` says which geometries are lists of points, and of which: a
line, a set of points, or a collection of nothing but points. `points?` finds the list where there
is one (`points?_eq_some_iff`).

**Conversions.** Four functions of the library take a list of points and make another geometry of it.
All four look at the points alone and not at the shape they come in.

**Theorem (`conversions_commute`).** A conversion succeeds exactly on lists of points. All but the one
to a polygon give the same points again in another shape, so that it makes no difference to any
conversion whether one of them went before. The polygon has one outline, which is the list of points,
closed by a copy of its first point where the two ends are apart; without points it is empty.
-/

namespace GeoScript

namespace Geometry

/-- The geometry is that list of points. -/
inductive IsPoints : Geometry → List Coord → Prop where
  | line (cs : List Coord) : IsPoints (.lineString cs) cs
  | points (cs : List Coord) : IsPoints (.multiPoint cs) cs
  | members (cs : List Coord) : IsPoints (.collection (cs.map .point)) cs

/-- Only points are points; one other member late in the list is enough to spoil it. -/
theorem mapM_asPoint?_eq_some {gs : List Geometry} {cs : List Coord} :
    gs.mapM asPoint? = some cs ↔ gs = cs.map .point := by
  induction gs generalizing cs with
  | nil => cases cs <;> simp
  | cons g gs ih =>
    rw [List.mapM_cons]
    cases g with
    | point c =>
      have hpoint : (point c).asPoint? = some c := rfl
      cases cs with
      | nil => simp [hpoint, Option.bind_eq_some_iff]
      | cons d ds =>
        simp only [hpoint, Option.pure_def, Option.bind_eq_bind, Option.bind_some,
          Option.bind_eq_some_iff, ih, Option.some.injEq, List.map_cons, List.cons.injEq]
        constructor
        · intro ⟨es, hes, hc, hd⟩
          exact ⟨hc ▸ rfl, hd ▸ hes⟩
        · intro ⟨hc, hds⟩
          exact ⟨ds, hds, Geometry.point.inj hc, rfl⟩
    | _ => cases cs <;> simp [asPoint?]

theorem points?_eq_some_iff {g : Geometry} {cs : List Coord} :
    g.points? = some cs ↔ g.IsPoints cs := by
  constructor
  · intro h
    cases g with
    | lineString ds => exact Option.some.inj h ▸ .line ds
    | multiPoint ds => exact Option.some.inj h ▸ .points ds
    | collection gs =>
      obtain rfl := mapM_asPoint?_eq_some.1 h
      exact .members cs
    | _ => cases h
  · intro h
    cases h with
    | line | points => rfl
    | members => exact mapM_asPoint?_eq_some.2 rfl

end Geometry

namespace Library.Shapes

/-- The functions that take a list of points. -/
inductive Conversion where
  | lineString
  | multiPoint
  | collection
  | polygon
  deriving DecidableEq

namespace Conversion

/-- The shape that the conversion makes. -/
def kind : Conversion → Geometry.Kind
  | lineString => .lineString
  | multiPoint => .multiPoint
  | collection => .collection
  | polygon => .polygon

/-- The library function. -/
def native (X : Conversion) : Native := ⟨"geometry", "To" ++ X.kind.name, 1, some 1⟩

/-- The conversion of a value, as a program calls it. -/
def on (X : Conversion) (v : Value) (line : Nat) : Effect Heap Value := X.native.call [v] line

/-- What the conversion makes of the points. -/
def make : Conversion → List Coord → Geometry
  | lineString => .lineString
  | multiPoint => .multiPoint
  | collection => fun cs => .collection (cs.map .point)
  | polygon => toPolygon

/-- The standard library binds the names of the conversions. -/
theorem mem_standardBindings (X : Conversion) :
    (X.native.name, .native X.native) ∈ standardBindings := by
  have hexport : Export.function X.native.name 1 ∈ geometry.exports := by
    cases X <;> simp [geometry, exports, native, kind, Geometry.Kind.name]
  exact List.mem_flatMap.2 ⟨geometry, by simp [standard], List.mem_map_of_mem hexport⟩

variable {g : Geometry} {cs : List Coord}

theorem on_eq (X : Conversion) (v : Value) (line : Nat) :
    X.on v line = .ofExcept line (do return .geometry (X.make (← v.asPoints))) := by
  cases X <;> rfl

theorem runOn_on_of_points (hg : g.IsPoints cs) (X : Conversion) (line : Nat) (h : Heap) :
    (X.on (.geometry g) line).runOn h = (.ok (.geometry (X.make cs)), h) := by
  have hpoints : (Value.geometry g).asPoints = .ok cs := by
    rw [Value.asPoints, Geometry.points?_eq_some_iff.2 hg]
  rw [on_eq, Effect.runOn_ofExcept, hpoints]
  rfl

theorem runOn_on_of_no_points (hg : ∀ cs, ¬ g.IsPoints cs) (X : Conversion) (line : Nat) (h : Heap) :
    (X.on (.geometry g) line).runOn h =
      (.error ⟨.typeMismatch (.expected .pointsList (.geometry g.kind)), line⟩, h) := by
  have hnone : g.points? = none := by
    apply Option.eq_none_iff_forall_ne_some.2
    exact fun cs hcs => hg cs (Geometry.points?_eq_some_iff.1 hcs)
  have hpoints : (Value.geometry g).asPoints = .error ((Value.geometry g).needed .pointsList) := by
    rw [Value.asPoints, hnone]
  rw [on_eq, Effect.runOn_ofExcept, hpoints]
  rfl

theorem kind_make (X : Conversion) (cs : List Coord) : (X.make cs).kind = X.kind := by
  cases X with
  | polygon =>
    change (toPolygon cs).kind = .polygon
    unfold toPolygon
    split <;> rfl
  | _ => rfl

/-- All shapes but the polygon hold the points that they were made of. -/
theorem isPoints_make {Y : Conversion} (hY : Y ≠ polygon) (cs : List Coord) :
    (Y.make cs).IsPoints cs := by
  cases Y with
  | lineString => exact .line cs
  | multiPoint => exact .points cs
  | collection => exact .members cs
  | polygon => exact absurd rfl hY

end Conversion

/-- The polygon whose outline is the list of points, closed if it is not. -/
inductive Outlined : List Coord → Geometry → Prop where
  | none : Outlined [] (.polygon [])
  | closed {cs : List Coord} {first last : Coord} (hfirst : cs.head? = some first)
      (hlast : cs.getLast? = some last) (hnear : first.isNear last = true) :
      Outlined cs (.polygon [cs])
  | apart {cs : List Coord} {first last : Coord} (hfirst : cs.head? = some first)
      (hlast : cs.getLast? = some last) (hnear : first.isNear last = false) :
      Outlined cs (.polygon [cs ++ [first]])

theorem outlined_toPolygon (cs : List Coord) : Outlined cs (toPolygon cs) := by
  cases cs with
  | nil => exact .none
  | cons c cs =>
    have hlast : (c :: cs).getLast? = some ((c :: cs).getLast (List.cons_ne_nil _ _)) :=
      List.getLast?_eq_some_getLast _
    by_cases hnear : c.isNear ((c :: cs).getLast (List.cons_ne_nil _ _)) = true
    · have hclose : close (c :: cs) = c :: cs := by simp [close, hlast, hnear]
      rw [toPolygon, hclose]
      exact .closed rfl hlast hnear
    · have hclose : close (c :: cs) = (c :: cs) ++ [c] := by simp [close, hlast, hnear]
      rw [toPolygon, hclose]
      exact .apart rfl hlast (by simpa using hnear)

open Conversion

/-- **Conversions of lists of points commute**, on every geometry, at every line and in every heap,
which they leave as it is. -/
theorem conversions_commute (g : Geometry) (line : Nat) (h : Heap) :
    (∀ X : Conversion, (X.native.name, .native X.native) ∈ standardBindings ∧
      ((∃ v, (X.on (.geometry g) line).runOn h = (.ok v, h)) ↔ ∃ cs, g.IsPoints cs) ∧
      ((∀ cs, ¬ g.IsPoints cs) → (X.on (.geometry g) line).runOn h =
        (.error ⟨.typeMismatch (.expected .pointsList (.geometry g.kind)), line⟩, h))) ∧
    ∀ cs, g.IsPoints cs →
      (∀ Y : Conversion, Y ≠ .polygon → ∃ r, (Y.on (.geometry g) line).runOn h =
          (.ok (.geometry r), h) ∧ r.kind = Y.kind ∧ r.IsPoints cs ∧
        ∀ X : Conversion,
          (X.on (.geometry r) line).runOn h = (X.on (.geometry g) line).runOn h) ∧
      ∃ r, (Conversion.polygon.on (.geometry g) line).runOn h = (.ok (.geometry r), h) ∧ Outlined cs r := by
  constructor
  · intro X
    refine ⟨?_, ⟨?_, ?_⟩, fun hg => runOn_on_of_no_points hg X line h⟩
    · exact X.mem_standardBindings
    · intro ⟨v, hv⟩
      apply Classical.byContradiction
      intro hg
      rw [runOn_on_of_no_points (not_exists.1 hg)] at hv
      cases hv
    · intro ⟨cs, hcs⟩
      exact ⟨_, runOn_on_of_points hcs X line h⟩
  · intro cs hcs
    constructor
    · intro Y hY
      have hmade := isPoints_make hY cs
      refine ⟨_, runOn_on_of_points hcs Y line h, kind_make Y cs, hmade, fun X => ?_⟩
      rw [runOn_on_of_points hmade, runOn_on_of_points hcs]
    · exact ⟨_, runOn_on_of_points hcs .polygon line h, outlined_toPolygon cs⟩

/-- Two points in a collection give the same polygon with and without a line in between. A line among
the members is the end of it. -/
theorem conversions_commute_collection :
    let g : Geometry := .collection ([⟨0, 0⟩, ⟨1, 0⟩].map .point)
    let mixed : Geometry := .collection [.point ⟨0, 0⟩, .lineString []]
    let h : Heap := .empty 0
    g.IsPoints [⟨0, 0⟩, ⟨1, 0⟩] ∧ (∀ cs, ¬ mixed.IsPoints cs) ∧
      (Conversion.lineString.on (.geometry mixed) 1).runOn h =
        (.error ⟨.typeMismatch (.expected .pointsList (.geometry .collection)), 1⟩, h) ∧
      ∃ r, (Conversion.lineString.on (.geometry g) 1).runOn h = (.ok (.geometry r), h) ∧
        r.IsPoints [⟨0, 0⟩, ⟨1, 0⟩] ∧
        (Conversion.polygon.on (.geometry r) 1).runOn h =
          (Conversion.polygon.on (.geometry g) 1).runOn h := by
  intro g mixed h
  have hg : g.IsPoints [⟨0, 0⟩, ⟨1, 0⟩] := .members _
  have hmixed : ∀ cs, ¬ mixed.IsPoints cs := by
    intro cs hcs
    cases Geometry.points?_eq_some_iff.2 hcs
  have hfails := ((conversions_commute mixed 1 h).1 .lineString).2.2 hmixed
  obtain ⟨r, hr, -, hpoints, hsame⟩ :=
    ((conversions_commute g 1 h).2 _ hg).1 .lineString (by decide)
  exact ⟨hg, hmixed, hfails, r, hr, hpoints, hsame .polygon⟩

end Library.Shapes

end GeoScript
