import GeoScript.Geometry.Basic

/-!
# The coordinates of a geometry

**The list.** The coordinates of a shape are those of its lists, one after the other; those of a
collection are those of its members (`coords_collection`). They are gathered last first, which is
what `coordsOnto_eq` says once and for all.

**Theorem (`traverse_eq`).** A walk over a geometry is a walk over the list of its coordinates, after
which the results are put in their places (`refill`). This holds whatever the walk does on its way.
-/

namespace GeoScript.Geometry

mutual

/-- Coordinates are gathered in front of those seen before. -/
theorem coordsOnto_eq : ∀ (g : Geometry) (seen : List Coord),
    g.coordsOnto seen = g.coordsOnto [] ++ seen
  | point c, seen => by
    rw [coordsOnto, coordsOnto]
    rfl
  | lineString cs, seen | multiPoint cs, seen => by
    rw [coordsOnto, coordsOnto, List.append_nil]
  | polygon rs, seen | multiLineString rs, seen => by
    rw [coordsOnto, coordsOnto, List.append_nil]
  | multiPolygon ps, seen => by
    rw [coordsOnto, coordsOnto, List.append_nil]
  | collection gs, seen => by
    rw [coordsOnto, coordsOnto, coordsOntoMembers_eq gs seen, coordsOntoMembers_eq gs [],
      List.append_nil]

theorem coordsOntoMembers_eq : ∀ (gs : List Geometry) (seen : List Coord),
    coordsOntoMembers gs seen = (gs.flatMap coords).reverse ++ seen
  | [], seen => by
    rw [coordsOntoMembers]
    rfl
  | g :: gs, seen => by
    rw [coordsOntoMembers, coordsOntoMembers_eq gs, coordsOnto_eq g seen, List.flatMap_cons,
      List.reverse_append, coords, List.reverse_reverse, List.append_assoc]

end

@[simp] theorem coords_point (c : Coord) : (point c).coords = [c] := by
  rw [coords, coordsOnto]
  rfl

@[simp] theorem coords_lineString (cs : List Coord) : (lineString cs).coords = cs := by
  rw [coords, coordsOnto, List.append_nil, List.reverse_reverse]

@[simp] theorem coords_polygon (rs : List (List Coord)) : (polygon rs).coords = rs.flatten := by
  rw [coords, coordsOnto, List.append_nil, List.reverse_reverse]

@[simp] theorem coords_multiPoint (cs : List Coord) : (multiPoint cs).coords = cs := by
  rw [coords, coordsOnto, List.append_nil, List.reverse_reverse]

@[simp] theorem coords_multiLineString (ls : List (List Coord)) :
    (multiLineString ls).coords = ls.flatten := by
  rw [coords, coordsOnto, List.append_nil, List.reverse_reverse]

@[simp] theorem coords_multiPolygon (ps : List (List (List Coord))) :
    (multiPolygon ps).coords = ps.flatten.flatten := by
  rw [coords, coordsOnto, List.append_nil, List.reverse_reverse]

@[simp] theorem coords_collection (gs : List Geometry) :
    (collection gs).coords = gs.flatMap coords := by
  rw [coords, coordsOnto, coordsOntoMembers_eq, List.append_nil, List.reverse_reverse]

/-! ## Places -/

/-- Divides a list into parts as long as those given. -/
def regroup {α β : Type} : List (List α) → List β → List (List β)
  | [], _ => []
  | part :: parts, bs => bs.take part.length :: regroup parts (bs.drop part.length)

mutual

/-- The geometry with other coordinates in the places of its own, in order. -/
def refill : Geometry → List Coord → Geometry
  | point c, ds => point (ds.headD c)
  | lineString _, ds => lineString ds
  | polygon rs, ds => polygon (regroup rs ds)
  | multiPoint _, ds => multiPoint ds
  | multiLineString ls, ds => multiLineString (regroup ls ds)
  | multiPolygon ps, ds => multiPolygon (regroup ps (regroup ps.flatten ds))
  | collection gs, ds => collection (refillMembers gs ds)

def refillMembers : List Geometry → List Coord → List Geometry
  | [], _ => []
  | g :: gs, ds =>
    refill g (ds.take g.coords.length) :: refillMembers gs (ds.drop g.coords.length)

end

section

variable {α β : Type} {parts : List (List α)} {bs : List β}

theorem flatten_regroup (h : bs.length = parts.flatten.length) : (regroup parts bs).flatten = bs := by
  induction parts generalizing bs with
  | nil =>
    rw [List.eq_nil_of_length_eq_zero h]
    rfl
  | cons part parts ih =>
    rw [List.flatten_cons, List.length_append] at h
    rw [regroup, List.flatten_cons, ih, List.take_append_drop]
    rw [List.length_drop]
    omega

theorem length_regroup (parts : List (List α)) (bs : List β) :
    (regroup parts bs).length = parts.length := by
  induction parts generalizing bs with
  | nil => rfl
  | cons part parts ih => rw [regroup, List.length_cons, ih, List.length_cons]

end

mutual

/-- What was put in place is found there. -/
theorem coords_refill : ∀ (g : Geometry) (ds : List Coord), ds.length = g.coords.length →
    (g.refill ds).coords = ds
  | point c, ds, h => by
    rw [coords_point] at h
    obtain ⟨d, rfl⟩ := List.length_eq_one_iff.1 h
    rw [refill, coords_point]
    rfl
  | lineString cs, ds, h => by rw [refill, coords_lineString]
  | polygon rs, ds, h => by
    rw [coords_polygon] at h
    rw [refill, coords_polygon, flatten_regroup h]
  | multiPoint cs, ds, h => by rw [refill, coords_multiPoint]
  | multiLineString ls, ds, h => by
    rw [coords_multiLineString] at h
    rw [refill, coords_multiLineString, flatten_regroup h]
  | multiPolygon ps, ds, h => by
    rw [coords_multiPolygon] at h
    rw [refill, coords_multiPolygon, flatten_regroup (length_regroup _ _), flatten_regroup h]
  | collection gs, ds, h => by
    rw [coords_collection] at h
    rw [refill, coords_collection, coords_refillMembers gs ds h]

theorem coords_refillMembers : ∀ (gs : List Geometry) (ds : List Coord),
    ds.length = (gs.flatMap coords).length → (refillMembers gs ds).flatMap coords = ds
  | [], ds, h => by
    rw [List.eq_nil_of_length_eq_zero h, refillMembers]
    rfl
  | g :: gs, ds, h => by
    rw [List.flatMap_cons, List.length_append] at h
    rw [refillMembers, List.flatMap_cons, coords_refill g, coords_refillMembers gs,
      List.take_append_drop]
    · rw [List.length_drop]
      omega
    · rw [List.length_take]
      omega

end

/-! ## Walks -/

section Walks

variable {m : Type → Type} [Monad m] [LawfulMonad m] {α β γ : Type}

/-- What follows a walk over a list may rely on the number of results. -/
theorem mapM_bind_congr {f : α → m β} {as : List α} {k k' : List β → m γ}
    (h : ∀ bs, bs.length = as.length → k bs = k' bs) : as.mapM f >>= k = as.mapM f >>= k' := by
  induction as generalizing k k' with
  | nil => simpa using h [] rfl
  | cons a as ih =>
    simp only [List.mapM_cons, bind_assoc, pure_bind]
    congr 1
    funext b
    apply ih
    intro bs hbs
    exact h (b :: bs) (congrArg Nat.succ hbs)

/-- A walk over parts is a walk over all of them at once. -/
theorem mapM_parts (f : α → m β) (parts : List (List α)) :
    parts.mapM (List.mapM f) = parts.flatten.mapM f >>= fun bs => pure (regroup parts bs) := by
  induction parts with
  | nil => simp [regroup]
  | cons part parts ih =>
    simp only [List.mapM_cons, List.flatten_cons, List.mapM_append, ih, bind_assoc, pure_bind]
    apply mapM_bind_congr
    intro bs hbs
    congr 1
    funext rest
    rw [regroup, ← hbs, List.take_left, List.drop_left]

mutual

/-- **A walk over a geometry** is a walk over its coordinates, with the results put in their
places. -/
theorem traverse_eq (f : Coord → m Coord) : ∀ g : Geometry,
    g.traverse f = g.coords.mapM f >>= fun ds => pure (g.refill ds)
  | point c => by
    rw [traverse, coords_point]
    simp [refill]
  | lineString cs => by
    rw [traverse, coords_lineString]
    simp only [refill]
  | polygon rs => by
    rw [traverse, coords_polygon, mapM_parts]
    simp only [refill, bind_assoc, pure_bind]
  | multiPoint cs => by
    rw [traverse, coords_multiPoint]
    simp only [refill]
  | multiLineString ls => by
    rw [traverse, coords_multiLineString, mapM_parts]
    simp only [refill, bind_assoc, pure_bind]
  | multiPolygon ps => by
    rw [traverse, coords_multiPolygon, mapM_parts (List.mapM f), mapM_parts]
    simp only [refill, bind_assoc, pure_bind]
  | collection gs => by
    rw [traverse, coords_collection, traverseMembers_eq f gs []]
    simp only [refill, bind_assoc, pure_bind, List.reverse_nil, List.nil_append]

theorem traverseMembers_eq (f : Coord → m Coord) : ∀ gs done : List Geometry,
    traverseMembers f gs done =
      (gs.flatMap coords).mapM f >>= fun ds => pure (done.reverse ++ refillMembers gs ds)
  | [], done => by
    rw [traverseMembers]
    simp [refillMembers]
  | g :: gs, done => by
    rw [traverseMembers, traverse_eq f g]
    simp only [traverseMembers_eq f gs, List.flatMap_cons, List.mapM_append, bind_assoc, pure_bind]
    apply mapM_bind_congr
    intro ds hds
    congr 1
    funext rest
    rw [refillMembers, ← hds, List.take_left, List.drop_left, List.reverse_cons, List.append_assoc]
    rfl

end

end Walks

end GeoScript.Geometry
