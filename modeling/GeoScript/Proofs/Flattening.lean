import GeoScript.Proofs.DepthFirst
import Mathlib.Data.List.Basic

/-!
# Flattening

**Members.** A geometry has members at every depth of nested collections, and the way to each of
them is an address (`Inside`). Those that are no collections are its leaves (`LeafAt`). A collection
is never a leaf, not even an empty one.

**Theorem (`flatten_lawful`).** `flatten` lists the leaves from left to right, each of them once for
each address that it has. So it lists no collection and loses no coordinate. Flattening what was
flattened changes nothing, flattening takes collections apart at every joint, and it may be done
before or after replacing every coordinate.
-/

namespace GeoScript.Geometry

/-- The geometry at an address inside of nested collections. Every geometry is inside of itself. -/
inductive Inside : Geometry → Address → Geometry → Prop
  | self {g : Geometry} : Inside g [] g
  | member {gs : List Geometry} {i : Nat} {g x : Geometry} {address : Address} :
    gs[i]? = some g → Inside g address x → Inside (collection gs) (i :: address) x

/-- A leaf is what is inside and no collection. -/
def LeafAt (g : Geometry) (address : Address) (x : Geometry) : Prop :=
  g.Inside address x ∧ x.kind ≠ .collection

/-- What holds of all that is no collection, and of collections of what it holds of, holds of every
geometry. -/
theorem induction_members {P : Geometry → Prop} (leaf : ∀ g, g.kind ≠ .collection → P g)
    (collection : ∀ gs, (∀ g ∈ gs, P g) → P (.collection gs)) (g : Geometry) : P g := by
  cases g with
  | collection gs => exact collection gs fun g hg => induction_members leaf collection g
  | _ => exact leaf _ nofun
termination_by sizeOf g
decreasing_by
  have hlt := List.sizeOf_lt_of_mem hg
  simp only [Geometry.collection.sizeOf_spec]
  omega

/-! ## What flattening gives -/

mutual

/-- Leaves are gathered in front of those seen before. -/
theorem leavesOnto_eq : ∀ (g : Geometry) (seen : List Geometry),
    g.leavesOnto seen = g.leavesOnto [] ++ seen
  | point _, seen | lineString _, seen | polygon _, seen | multiPoint _, seen
  | multiLineString _, seen | multiPolygon _, seen => by
    rw [leavesOnto, leavesOnto]
    · rfl
    all_goals exact nofun
  | collection gs, seen => by
    rw [leavesOnto, leavesOnto, leavesOntoMembers_eq gs seen, leavesOntoMembers_eq gs [],
      List.append_nil]

theorem leavesOntoMembers_eq : ∀ gs seen : List Geometry,
    leavesOntoMembers gs seen = (gs.flatMap flatten).reverse ++ seen
  | [], seen => by
    rw [leavesOntoMembers]
    rfl
  | g :: gs, seen => by
    rw [leavesOntoMembers, leavesOntoMembers_eq gs, leavesOnto_eq g seen, List.flatMap_cons,
      List.reverse_append, flatten, List.reverse_reverse, List.append_assoc]

end

theorem flatten_collection (gs : List Geometry) :
    (collection gs).flatten = gs.flatMap flatten := by
  rw [flatten, leavesOnto, leavesOntoMembers_eq, List.append_nil, List.reverse_reverse]

theorem flatten_of_kind_ne {g : Geometry} (h : g.kind ≠ .collection) : g.flatten = [g] := by
  cases g with
  | collection gs => exact absurd rfl h
  | _ =>
    rw [flatten, leavesOnto]
    · rfl
    · exact nofun

/-! ## Leaves -/

theorem leafAt_collection (gs : List Geometry) : (collection gs).LeafAt = Among LeafAt 0 gs := by
  funext address x
  rw [among_zero]
  apply propext
  constructor
  · rintro ⟨hx, hkind⟩
    cases hx with
    | self => exact absurd rfl hkind
    | member hg hx => exact ⟨_, _, _, hg, rfl, hx, hkind⟩
  · rintro ⟨i, g, rest, hg, rfl, hx, hkind⟩
    exact ⟨.member hg hx, hkind⟩

theorem leafAt_of_kind_ne {g : Geometry} (h : g.kind ≠ .collection) : g.LeafAt = Here g := by
  funext address x
  apply propext
  constructor
  · rintro ⟨hx, -⟩
    cases hx with
    | self => exact ⟨rfl, rfl⟩
    | member => exact absurd rfl h
  · rintro ⟨rfl, rfl⟩
    exact ⟨.self, h⟩

/-- **The leaves are listed from left to right**, depth first. -/
theorem exists_leftToRight_flatten (g : Geometry) :
    ∃ addresses, LeftToRight g.LeafAt addresses g.flatten := by
  induction g using induction_members with
  | leaf g h =>
    rw [flatten_of_kind_ne h, leafAt_of_kind_ne h]
    exact ⟨[[]], leftToRight_here g⟩
  | collection gs ih =>
    rw [flatten_collection, leafAt_collection]
    exact exists_leftToRight_among ih 0

theorem kind_ne_of_mem_flatten {g x : Geometry} (h : x ∈ g.flatten) : x.kind ≠ .collection := by
  obtain ⟨addresses, hlisted⟩ := exists_leftToRight_flatten g
  obtain ⟨address, -, hkind⟩ := hlisted.exists_address h
  exact hkind

/-- There is nothing left to flatten. -/
theorem flatten_flatten (g : Geometry) : (collection g.flatten).flatten = g.flatten := by
  have hsingle : ∀ x ∈ g.flatten, x.flatten = [x] := fun x hx =>
    flatten_of_kind_ne (kind_ne_of_mem_flatten hx)
  rw [flatten_collection, List.flatMap_congr hsingle, List.flatMap_singleton']

theorem flatMap_coords_flatten (g : Geometry) : g.flatten.flatMap coords = g.coords := by
  induction g using induction_members with
  | leaf g h => rw [flatten_of_kind_ne h, List.flatMap_singleton]
  | collection gs ih =>
    rw [flatten_collection, coords_collection, List.flatMap_assoc, List.flatMap_congr ih]

/-! ## Replacing every coordinate -/

theorem outlines_mapCoords (f : Coord → Coord) (gs : List Geometry) :
    outlines (gs.map (mapCoords f)) = outlines gs := by
  induction gs with
  | nil => rfl
  | cons g gs ih => rw [List.map_cons, outlines, outlines, outline_mapCoords, ih]

theorem mapCoords_collection (f : Coord → Coord) (gs : List Geometry) :
    (collection gs).mapCoords f = collection (gs.map (mapCoords f)) := by
  symm
  rw [eq_mapCoords_iff, outline, outline, outlines_mapCoords, coords_collection, coords_collection,
    List.flatMap_map, List.map_flatMap]
  simp only [coords_mapCoords, and_self]

theorem kind_eq_of_outline {a b : Geometry} (h : a.outline = b.outline) : a.kind = b.kind := by
  cases a <;> cases b <;> simp only [outline, reduceCtorEq] at h <;> rfl

theorem flatten_mapCoords (f : Coord → Coord) (g : Geometry) :
    (g.mapCoords f).flatten = g.flatten.map (mapCoords f) := by
  induction g using induction_members with
  | leaf g h =>
    have hmapped : (g.mapCoords f).kind ≠ .collection := by
      rwa [kind_eq_of_outline (outline_mapCoords f g)]
    rw [flatten_of_kind_ne h, flatten_of_kind_ne hmapped, List.map_singleton]
  | collection gs ih =>
    rw [mapCoords_collection, flatten_collection, flatten_collection, List.flatMap_map,
      List.map_flatMap, List.flatMap_congr ih]

/-! ## The theorem -/

/-- **Flattening removes nesting and nothing else.** -/
theorem flatten_lawful (g : Geometry) :
    (∀ x ∈ g.flatten, x.kind ≠ .collection) ∧
    g.flatten.flatMap coords = g.coords ∧
    (∃ addresses, LeftToRight g.LeafAt addresses g.flatten) ∧
    (collection g.flatten).flatten = g.flatten ∧
    (∀ xs ys : List Geometry, (collection (xs ++ ys)).flatten =
      (collection xs).flatten ++ (collection ys).flatten) ∧
    ∀ f : Coord → Coord, (g.mapCoords f).flatten = g.flatten.map (mapCoords f) := by
  refine ⟨fun x hx => kind_ne_of_mem_flatten hx, flatMap_coords_flatten g,
    exists_leftToRight_flatten g, flatten_flatten g, ?_, fun f => flatten_mapCoords f g⟩
  intro xs ys
  rw [flatten_collection, flatten_collection, flatten_collection, List.flatMap_append]

/-- Empty collections leave nothing, and an empty line is a leaf. -/
theorem flatten_lawful_nested :
    let p : Geometry := .point ⟨1, 2⟩
    let g : Geometry :=
      .collection [.collection [], p, .collection [.collection [.lineString []], p]]
    g.flatten = [p, .lineString [], p] ∧ lineString [] ∈ g.flatten ∧
      (lineString []).kind ≠ .collection ∧
      (collection [p, .lineString [], p]).flatten = [p, .lineString [], p] := by
  intro p g
  have hflat : g.flatten = [p, .lineString [], p] := by rfl
  have hmem : lineString [] ∈ g.flatten := by
    rw [hflat]
    exact List.mem_cons_of_mem _ List.mem_cons_self
  obtain ⟨hleaves, -, -, hagain, -⟩ := flatten_lawful g
  rw [hflat] at hagain
  exact ⟨hflat, hmem, hleaves _ hmem, hagain⟩

end GeoScript.Geometry
