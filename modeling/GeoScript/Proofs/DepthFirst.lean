import GeoScript.Proofs.Outline

/-!
# Depth first, from left to right

**Addresses.** What stands somewhere inside of nested lists has an address: the index of its part in
the list at the top, the index of its part in that part, and so on. In the order of a dictionary
addresses go depth first and from left to right.

**Listings.** A list shows what stands at addresses *from left to right* when the addresses grow
along the list and nothing that stands anywhere is left out (`LeftToRight`). As addresses that grow
are different, each thing is shown once for each address it stands at.

**Theorem (`leftToRight_coords`).** `coords` shows the coordinates of a geometry from left to right.
Their addresses are those that the outline has room for (`Outline.addresses`), so two geometries of
the same outline have coordinates at the same addresses.
-/

namespace GeoScript

/-- The indices that lead to a part, the index in the list at the top first. -/
abbrev Address := List Nat

/-- The list shows what stands at addresses: all of it, in the order of the addresses. -/
structure LeftToRight {β : Type} (Stands : Address → β → Prop) (addresses : List Address)
    (bs : List β) : Prop where
  sorted : addresses.Pairwise (· < ·)
  length_eq : addresses.length = bs.length
  stands_iff (address : Address) (b : β) : Stands address b ↔ (address, b) ∈ addresses.zip bs

namespace LeftToRight

variable {β : Type} {Stands : Address → β → Prop} {addresses : List Address} {bs : List β}

/-- Something stands at every address. -/
theorem exists_thing (h : LeftToRight Stands addresses bs) {address : Address}
    (hmem : address ∈ addresses) : ∃ b, Stands address b := by
  rw [← List.map_fst_zip (Nat.le_of_eq h.length_eq)] at hmem
  obtain ⟨⟨_, b⟩, hpair, rfl⟩ := List.mem_map.1 hmem
  exact ⟨b, (h.stands_iff _ b).2 hpair⟩

/-- Everything that is listed stands somewhere. -/
theorem exists_address (h : LeftToRight Stands addresses bs) {b : β} (hmem : b ∈ bs) :
    ∃ address, Stands address b := by
  rw [← List.map_snd_zip (Nat.le_of_eq h.length_eq.symm)] at hmem
  obtain ⟨⟨address, _⟩, hpair, rfl⟩ := List.mem_map.1 hmem
  exact ⟨address, (h.stands_iff address _).2 hpair⟩

end LeftToRight

section Lists

variable {α β : Type} {Stands : α → Address → β → Prop}

/-- A thing that has no parts stands in itself. -/
def Here (a : α) (address : Address) (b : α) : Prop := address = [] ∧ b = a

/-- What stands in the entries of a list, the first of which has the index `i`. -/
def Among (Stands : α → Address → β → Prop) (i : Nat) (as : List α) (address : Address) (b : β) :
    Prop :=
  ∃ k a rest, as[k]? = some a ∧ address = (i + k) :: rest ∧ Stands a rest b

theorem among_cons {i : Nat} {a : α} {as : List α} {address : Address} {b : β} :
    Among Stands i (a :: as) address b ↔
      (∃ rest, address = i :: rest ∧ Stands a rest b) ∨ Among Stands (i + 1) as address b := by
  constructor
  · rintro ⟨k, x, rest, hx, rfl, hb⟩
    cases k with
    | zero =>
      obtain rfl := Option.some.inj hx
      exact .inl ⟨rest, rfl, hb⟩
    | succ k => exact .inr ⟨k, x, rest, hx, by rw [Nat.add_right_comm]; rfl, hb⟩
  · rintro (⟨rest, rfl, hb⟩ | ⟨k, x, rest, hx, rfl, hb⟩)
    · exact ⟨0, a, rest, rfl, rfl, hb⟩
    · exact ⟨k + 1, x, rest, hx, by rw [Nat.add_right_comm]; rfl, hb⟩

theorem among_zero {as : List α} {address : Address} {b : β} : Among Stands 0 as address b ↔
    ∃ k a rest, as[k]? = some a ∧ address = k :: rest ∧ Stands a rest b := by
  simp only [Among, Nat.zero_add]

/-- The addresses in the entries of a list, from those in each entry. -/
def addressesFrom : Nat → List (List Address) → List Address
  | _, [] => []
  | i, inner :: inners => inner.map (i :: ·) ++ addressesFrom (i + 1) inners

theorem leftToRight_here (a : α) : LeftToRight (Here a) [[]] [a] where
  sorted := List.pairwise_singleton _ _
  length_eq := rfl
  stands_iff address b := by simp [Here]

theorem leftToRight_nil (i : Nat) : LeftToRight (Among Stands i []) [] [] where
  sorted := .nil
  length_eq := rfl
  stands_iff address b := by simp [Among]

/-- What stands in the first entry of a list comes before what stands in the others. -/
theorem LeftToRight.cons {i : Nat} {a : α} {as : List α} {inner outer : List Address}
    {bs cs : List β} (hhead : LeftToRight (Stands a) inner bs)
    (htail : LeftToRight (Among Stands (i + 1) as) outer cs) :
    LeftToRight (Among Stands i (a :: as)) (inner.map (i :: ·) ++ outer) (bs ++ cs) where
  sorted := by
    rw [List.pairwise_append]
    refine ⟨?_, htail.sorted, ?_⟩
    · rw [List.pairwise_map]
      exact hhead.sorted.imp fun h => List.cons_lt_cons_iff.2 (.inr ⟨rfl, h⟩)
    · intro p hp q hq
      obtain ⟨p, -, rfl⟩ := List.mem_map.1 hp
      -- Something stands there in the tail, and so in an entry with a larger index.
      obtain ⟨c, k, _, rest, -, rfl, -⟩ := htail.exists_thing hq
      exact List.cons_lt_cons_iff.2 (.inl (by omega))
  length_eq := by
    rw [List.length_append, List.length_append, List.length_map, hhead.length_eq,
      htail.length_eq]
  stands_iff address b := by
    have hlength : (inner.map (i :: ·)).length = bs.length := by
      rw [List.length_map, hhead.length_eq]
    rw [among_cons, List.zip_append hlength, List.mem_append, List.zip_map_left, List.mem_map,
      htail.stands_iff]
    simp only [hhead.stands_iff, Prod.exists, Prod.map_apply, id_eq, Prod.mk.injEq]
    constructor
    · rintro (⟨rest, rfl, hmem⟩ | hmem)
      · exact .inl ⟨rest, b, hmem, rfl, rfl⟩
      · exact .inr hmem
    · rintro (⟨rest, b, hmem, rfl, rfl⟩ | hmem)
      · exact .inl ⟨rest, rfl, hmem⟩
      · exact .inr hmem

/-- What stands in the entries is shown entry by entry. -/
theorem leftToRight_among {inner : α → List Address} {shown : α → List β}
    (h : ∀ a, LeftToRight (Stands a) (inner a) (shown a)) (i : Nat) (as : List α) :
    LeftToRight (Among Stands i as) (addressesFrom i (as.map inner)) (as.flatMap shown) := by
  induction as generalizing i with
  | nil => exact leftToRight_nil i
  | cons a as ih => exact (h a).cons (ih (i + 1))

theorem exists_leftToRight_among {shown : α → List β} {as : List α}
    (h : ∀ a ∈ as, ∃ inner, LeftToRight (Stands a) inner (shown a)) (i : Nat) :
    ∃ addresses, LeftToRight (Among Stands i as) addresses (as.flatMap shown) := by
  induction as generalizing i with
  | nil => exact ⟨[], leftToRight_nil i⟩
  | cons a as ih =>
    obtain ⟨⟨inner, hhead⟩, hrest⟩ := List.forall_mem_cons.1 h
    obtain ⟨outer, htail⟩ := ih hrest (i + 1)
    exact ⟨_, hhead.cons htail⟩

end Lists

/-! ## Coordinates -/

/-- The addresses in a list of a length. -/
def lineAddresses (length : Nat) : List Address := addressesFrom 0 (List.replicate length [[]])

/-- The addresses in a list of lists of these lengths. -/
def ringAddresses (lengths : List Nat) : List Address := addressesFrom 0 (lengths.map lineAddresses)

mutual

/-- The addresses that an outline has room for. -/
def Outline.addresses : Outline → List Address
  | .point => [[]]
  | .lineString length => lineAddresses length
  | .polygon rings => ringAddresses rings
  | .multiPoint length => lineAddresses length
  | .multiLineString lines => ringAddresses lines
  | .multiPolygon polygons => addressesFrom 0 (polygons.map ringAddresses)
  | .collection members => addressesFrom 0 (Outline.memberAddresses members)

def Outline.memberAddresses : List Outline → List (List Address)
  | [] => []
  | o :: os => o.addresses :: Outline.memberAddresses os

end

namespace Geometry

/-- The coordinate stands at the address in the geometry. -/
inductive At : Geometry → Address → Coord → Prop
  | point {c : Coord} : At (point c) [] c
  | lineString {cs : List Coord} {i : Nat} {c : Coord} : cs[i]? = some c → At (lineString cs) [i] c
  | polygon {rs : List (List Coord)} {i j : Nat} {r : List Coord} {c : Coord} :
    rs[i]? = some r → r[j]? = some c → At (polygon rs) [i, j] c
  | multiPoint {cs : List Coord} {i : Nat} {c : Coord} : cs[i]? = some c → At (multiPoint cs) [i] c
  | multiLineString {ls : List (List Coord)} {i j : Nat} {l : List Coord} {c : Coord} :
    ls[i]? = some l → l[j]? = some c → At (multiLineString ls) [i, j] c
  | multiPolygon {ps : List (List (List Coord))} {i j k : Nat} {p : List (List Coord)}
    {r : List Coord} {c : Coord} : ps[i]? = some p → p[j]? = some r → r[k]? = some c →
      At (multiPolygon ps) [i, j, k] c
  | collection {gs : List Geometry} {i : Nat} {g : Geometry} {address : Address} {c : Coord} :
    gs[i]? = some g → At g address c → At (collection gs) (i :: address) c

section

variable {address : Address} {c : Coord}

/-- What stands in a list of coordinates. -/
theorem among_line_iff {cs : List Coord} :
    Among Here 0 cs address c ↔ ∃ i, address = [i] ∧ cs[i]? = some c := by
  rw [among_zero]
  constructor
  · rintro ⟨i, c, _, hc, rfl, rfl, rfl⟩
    exact ⟨i, rfl, hc⟩
  · rintro ⟨i, rfl, hc⟩
    exact ⟨i, c, [], hc, rfl, rfl, rfl⟩

/-- What stands in a list of lists of coordinates. -/
theorem among_rings_iff {rs : List (List Coord)} : Among (Among Here 0) 0 rs address c ↔
    ∃ i j r, address = [i, j] ∧ rs[i]? = some r ∧ r[j]? = some c := by
  rw [among_zero]
  simp only [among_line_iff]
  constructor
  · rintro ⟨i, r, _, hr, rfl, j, rfl, hc⟩
    exact ⟨i, j, r, rfl, hr, hc⟩
  · rintro ⟨i, j, r, rfl, hr, hc⟩
    exact ⟨i, r, [j], hr, rfl, j, rfl, hc⟩

end

theorem at_point (c : Coord) : (point c).At = Here c := by
  funext address d
  apply propext
  constructor
  · intro h
    cases h with
    | point => exact ⟨rfl, rfl⟩
  · rintro ⟨rfl, rfl⟩
    exact .point

theorem at_lineString (cs : List Coord) : (lineString cs).At = Among Here 0 cs := by
  funext address c
  rw [among_line_iff]
  apply propext
  constructor
  · intro h
    cases h with
    | lineString hc => exact ⟨_, rfl, hc⟩
  · rintro ⟨i, rfl, hc⟩
    exact .lineString hc

theorem at_multiPoint (cs : List Coord) : (multiPoint cs).At = Among Here 0 cs := by
  funext address c
  rw [among_line_iff]
  apply propext
  constructor
  · intro h
    cases h with
    | multiPoint hc => exact ⟨_, rfl, hc⟩
  · rintro ⟨i, rfl, hc⟩
    exact .multiPoint hc

theorem at_polygon (rs : List (List Coord)) : (polygon rs).At = Among (Among Here 0) 0 rs := by
  funext address c
  rw [among_rings_iff]
  apply propext
  constructor
  · intro h
    cases h with
    | polygon hr hc => exact ⟨_, _, _, rfl, hr, hc⟩
  · rintro ⟨i, j, r, rfl, hr, hc⟩
    exact .polygon hr hc

theorem at_multiLineString (ls : List (List Coord)) :
    (multiLineString ls).At = Among (Among Here 0) 0 ls := by
  funext address c
  rw [among_rings_iff]
  apply propext
  constructor
  · intro h
    cases h with
    | multiLineString hl hc => exact ⟨_, _, _, rfl, hl, hc⟩
  · rintro ⟨i, j, l, rfl, hl, hc⟩
    exact .multiLineString hl hc

theorem at_multiPolygon (ps : List (List (List Coord))) :
    (multiPolygon ps).At = Among (Among (Among Here 0) 0) 0 ps := by
  funext address c
  rw [among_zero]
  simp only [among_rings_iff]
  apply propext
  constructor
  · intro h
    cases h with
    | multiPolygon hp hr hc => exact ⟨_, _, _, hp, rfl, _, _, _, rfl, hr, hc⟩
  · rintro ⟨i, p, _, hp, rfl, j, k, r, rfl, hr, hc⟩
    exact .multiPolygon hp hr hc

theorem at_collection (gs : List Geometry) : (collection gs).At = Among At 0 gs := by
  funext address c
  rw [among_zero]
  apply propext
  constructor
  · intro h
    cases h with
    | collection hg hc => exact ⟨_, _, _, hg, rfl, hc⟩
  · rintro ⟨i, g, rest, hg, rfl, hc⟩
    exact .collection hg hc

theorem leftToRight_line (cs : List Coord) :
    LeftToRight (Among Here 0 cs) (lineAddresses cs.length) cs := by
  have h := leftToRight_among leftToRight_here 0 cs
  rwa [List.map_const', List.flatMap_singleton'] at h

theorem leftToRight_rings (rs : List (List Coord)) :
    LeftToRight (Among (Among Here 0) 0 rs) (ringAddresses (rs.map List.length)) rs.flatten := by
  have h := leftToRight_among leftToRight_line 0 rs
  rw [List.flatMap_id'] at h
  rw [ringAddresses, List.map_map]
  exact h

theorem leftToRight_polygons (ps : List (List (List Coord))) :
    LeftToRight (Among (Among (Among Here 0) 0) 0 ps)
      (addressesFrom 0 ((ps.map (List.map List.length)).map ringAddresses)) ps.flatten.flatten := by
  have h := leftToRight_among leftToRight_rings 0 ps
  rw [List.flatten_flatten, ← List.flatMap_def, List.map_map]
  exact h

mutual

/-- **The coordinates are listed from left to right**, depth first. -/
theorem leftToRight_coords : ∀ g : Geometry, LeftToRight g.At g.outline.addresses g.coords
  | point c => by
    rw [coords_point, outline, Outline.addresses, at_point]
    exact leftToRight_here c
  | lineString cs => by
    rw [coords_lineString, outline, Outline.addresses, at_lineString]
    exact leftToRight_line cs
  | polygon rs => by
    rw [coords_polygon, outline, Outline.addresses, at_polygon]
    exact leftToRight_rings rs
  | multiPoint cs => by
    rw [coords_multiPoint, outline, Outline.addresses, at_multiPoint]
    exact leftToRight_line cs
  | multiLineString ls => by
    rw [coords_multiLineString, outline, Outline.addresses, at_multiLineString]
    exact leftToRight_rings ls
  | multiPolygon ps => by
    rw [coords_multiPolygon, outline, Outline.addresses, at_multiPolygon]
    exact leftToRight_polygons ps
  | collection gs => by
    rw [coords_collection, outline, Outline.addresses, at_collection]
    exact leftToRight_members 0 gs

theorem leftToRight_members : ∀ (i : Nat) (gs : List Geometry),
    LeftToRight (Among At i gs) (addressesFrom i (Outline.memberAddresses (outlines gs)))
      (gs.flatMap coords)
  | i, [] => by
    rw [outlines, Outline.memberAddresses]
    exact leftToRight_nil i
  | i, g :: gs => by
    rw [outlines, Outline.memberAddresses]
    exact (leftToRight_coords g).cons (leftToRight_members (i + 1) gs)

end

-- A point comes before the rings of a polygon beside it.
example : (collection [.point ⟨0, 0⟩, .polygon [[⟨1, 1⟩, ⟨2, 2⟩], [⟨3, 3⟩]]]).outline.addresses =
    [[0], [1, 0, 0], [1, 0, 1], [1, 1, 0]] := by
  decide

end Geometry

end GeoScript
