import GeoScript.Proofs.Coordinates

/-!
# A geometry is its outline and its coordinates

**Outlines.** What is left of a geometry without its coordinates: which shapes are inside of which,
and how long their lists are.

**Theorem (`eq_of_outline_of_coords`).** Two geometries with the same outline and the same
coordinates are equal. So a walk that keeps the outline is told by what it does to the list of
coordinates, at whatever depth these are; replacing every coordinate by its image is such a walk
(`eq_mapCoords_iff`).
-/

namespace GeoScript

/-- A geometry without its coordinates. -/
inductive Outline where
  | point
  | lineString (length : Nat)
  | polygon (rings : List Nat)
  | multiPoint (length : Nat)
  | multiLineString (lines : List Nat)
  | multiPolygon (polygons : List (List Nat))
  | collection (members : List Outline)

namespace Geometry

mutual

/-- The shapes that a geometry is made of, and the lengths of their lists. -/
def outline : Geometry → Outline
  | point _ => .point
  | lineString cs => .lineString cs.length
  | polygon rs => .polygon (rs.map List.length)
  | multiPoint cs => .multiPoint cs.length
  | multiLineString ls => .multiLineString (ls.map List.length)
  | multiPolygon ps => .multiPolygon (ps.map (List.map List.length))
  | collection gs => .collection (outlines gs)

def outlines : List Geometry → List Outline
  | [] => []
  | g :: gs => outline g :: outlines gs

end

/-! ## Parts of given lengths -/

section Parts

variable {α β γ : Type} {parts : List (List α)}

/-- Parts of the same lengths are found again. -/
theorem regroup_flatten {groups : List (List β)}
    (h : groups.map List.length = parts.map List.length) : regroup parts groups.flatten = groups := by
  induction parts generalizing groups with
  | nil =>
    rw [List.map_nil, List.map_eq_nil_iff] at h
    rw [h]
    rfl
  | cons part parts ih =>
    cases groups with
    | nil => cases h
    | cons group groups =>
      obtain ⟨hlength, hrest⟩ := List.cons.inj h
      rw [regroup, List.flatten_cons, ← hlength, List.take_left, List.drop_left, ih hrest]

theorem map_length_regroup {bs : List β} (h : bs.length = parts.flatten.length) :
    (regroup parts bs).map List.length = parts.map List.length := by
  induction parts generalizing bs with
  | nil => rfl
  | cons part parts ih =>
    rw [List.flatten_cons, List.length_append] at h
    have hrest : (bs.drop part.length).length = parts.flatten.length := by
      rw [List.length_drop]
      omega
    rw [regroup, List.map_cons, List.map_cons, ih hrest, List.length_take]
    congr
    omega

theorem map_regroup (f : β → γ) (parts : List (List α)) (bs : List β) :
    (regroup parts bs).map (List.map f) = regroup parts (bs.map f) := by
  induction parts generalizing bs with
  | nil => rfl
  | cons part parts ih => rw [regroup, regroup, List.map_cons, ih, List.map_take, List.map_drop]

end Parts

/-! ## Putting coordinates in their places -/

mutual

/-- Other coordinates in the same places leave the outline as it is. -/
theorem outline_refill : ∀ (g : Geometry) (ds : List Coord), ds.length = g.coords.length →
    (g.refill ds).outline = g.outline
  | point c, ds, h => by rw [refill, outline, outline]
  | lineString cs, ds, h | multiPoint cs, ds, h => by
    simp only [coords_lineString, coords_multiPoint] at h
    rw [refill, outline, outline, h]
  | polygon rs, ds, h | multiLineString rs, ds, h => by
    simp only [coords_polygon, coords_multiLineString] at h
    rw [refill, outline, outline, map_length_regroup h]
  | multiPolygon ps, ds, h => by
    rw [coords_multiPolygon] at h
    -- Coordinates are put into rings first, then the rings into polygons.
    rw [refill, outline, outline, map_regroup, map_length_regroup h, List.map_flatten,
      regroup_flatten]
    rw [List.map_map]
    exact List.map_congr_left fun p _ => List.length_map _
  | collection gs, ds, h => by
    rw [coords_collection] at h
    rw [refill, outline, outline, outlines_refillMembers gs ds h]

theorem outlines_refillMembers : ∀ (gs : List Geometry) (ds : List Coord),
    ds.length = (gs.flatMap coords).length → outlines (refillMembers gs ds) = outlines gs
  | [], ds, h => by rw [refillMembers]
  | g :: gs, ds, h => by
    rw [List.flatMap_cons, List.length_append] at h
    rw [refillMembers, outlines, outlines, outline_refill g, outlines_refillMembers gs]
    · rw [List.length_drop]
      omega
    · rw [List.length_take]
      omega

end

mutual

/-- A geometry of a given outline has as many coordinates, and is got back from them. -/
theorem refill_coords : ∀ g a : Geometry, a.outline = g.outline →
    a.coords.length = g.coords.length ∧ g.refill a.coords = a
  | point c, a, h => by
    cases a <;> simp only [outline, reduceCtorEq] at h
    simp [refill]
  | lineString cs, a, h => by
    cases a <;> simp only [outline, reduceCtorEq, Outline.lineString.injEq] at h
    simpa [refill] using h
  | multiPoint cs, a, h => by
    cases a <;> simp only [outline, reduceCtorEq, Outline.multiPoint.injEq] at h
    simpa [refill] using h
  | polygon rs, a, h => by
    cases a <;> simp only [outline, reduceCtorEq, Outline.polygon.injEq] at h
    simp only [coords_polygon, List.length_flatten, refill, regroup_flatten h, h, and_self]
  | multiLineString ls, a, h => by
    cases a <;> simp only [outline, reduceCtorEq, Outline.multiLineString.injEq] at h
    simp only [coords_multiLineString, List.length_flatten, refill, regroup_flatten h, h, and_self]
  | multiPolygon ps, a, h => by
    cases a <;> simp only [outline, reduceCtorEq, Outline.multiPolygon.injEq] at h
    case multiPolygon qs =>
      have hflat : qs.flatten.map List.length = ps.flatten.map List.length := by
        rw [List.map_flatten, List.map_flatten, h]
      have hlength : qs.map List.length = ps.map List.length := by
        simpa [Function.comp_def] using congrArg (List.map List.length) h
      simp only [coords_multiPolygon, List.length_flatten, refill, regroup_flatten hflat,
        regroup_flatten hlength, hflat, and_self]
  | collection gs, a, h => by
    cases a <;> simp only [outline, reduceCtorEq, Outline.collection.injEq] at h
    obtain ⟨hlength, hrefill⟩ := refillMembers_coords gs _ h
    simp only [coords_collection, refill, hlength, hrefill, and_self]

theorem refillMembers_coords : ∀ gs as : List Geometry, outlines as = outlines gs →
    (as.flatMap coords).length = (gs.flatMap coords).length ∧
      refillMembers gs (as.flatMap coords) = as
  | [], as, h => by
    cases as with
    | nil => exact ⟨rfl, by rw [refillMembers]⟩
    | cons a as => cases h
  | g :: gs, as, h => by
    cases as with
    | nil => cases h
    | cons a as =>
      rw [outlines, outlines] at h
      obtain ⟨hhead, htail⟩ := List.cons.inj h
      obtain ⟨hlength, hrefill⟩ := refill_coords g a hhead
      obtain ⟨hlengths, hrefills⟩ := refillMembers_coords gs as htail
      rw [List.flatMap_cons, List.flatMap_cons, List.length_append, List.length_append,
        refillMembers, ← hlength, List.take_left, List.drop_left, hrefill, hrefills, hlengths]
      exact ⟨rfl, rfl⟩

end

/-- **A geometry is its outline and its coordinates.** -/
theorem eq_of_outline_of_coords {a b : Geometry} (ho : a.outline = b.outline)
    (hc : a.coords = b.coords) : a = b := by
  rw [← (refill_coords b a ho).2, hc, (refill_coords b b rfl).2]

/-! ## Replacing every coordinate -/

variable {g r : Geometry} {f : Coord → Coord}

theorem mapCoords_eq (f : Coord → Coord) (g : Geometry) :
    g.mapCoords f = g.refill (g.coords.map f) := by
  rw [mapCoords, traverse_eq]
  simp

@[simp] theorem coords_mapCoords (f : Coord → Coord) (g : Geometry) :
    (g.mapCoords f).coords = g.coords.map f := by
  rw [mapCoords_eq, coords_refill g _ (List.length_map f)]

@[simp] theorem outline_mapCoords (f : Coord → Coord) (g : Geometry) :
    (g.mapCoords f).outline = g.outline := by
  rw [mapCoords_eq, outline_refill g _ (List.length_map f)]

/-- **Replacing every coordinate** is what keeps the outline and replaces the coordinates one by
one. -/
theorem eq_mapCoords_iff :
    r = g.mapCoords f ↔ r.outline = g.outline ∧ r.coords = g.coords.map f := by
  constructor
  · rintro rfl
    exact ⟨outline_mapCoords f g, coords_mapCoords f g⟩
  · rintro ⟨ho, hc⟩
    apply eq_of_outline_of_coords
    · rw [ho, outline_mapCoords]
    · rw [hc, coords_mapCoords]

end Geometry

end GeoScript
