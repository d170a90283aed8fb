import GeoScript.Proofs.Plain

/-!
# Geometries that can be read back

**Filled.** The grammar has no form for an empty ring, nor for a polygon without rings among others.
A geometry is *filled* if it has no empty list inside: each ring of a polygon and each line of a set
of lines has a coordinate, each member of a set of polygons has a ring and each of its rings a
coordinate, at every depth of nested collections. The list at the top of a geometry may be empty.

**Producers.** All operations on values give filled geometries if they are given such. Nothing but a
literal with an empty list in it could begin otherwise.
-/

namespace GeoScript

mutual

/-- No list inside the geometry is empty, at any depth. -/
def Geometry.Filled : Geometry → Prop
  | .point _ | .lineString _ | .multiPoint _ => True
  | .polygon rs | .multiLineString rs => ∀ r ∈ rs, r ≠ []
  | .multiPolygon ps => ∀ p ∈ ps, p ≠ [] ∧ ∀ r ∈ p, r ≠ []
  | .collection gs => Geometry.FilledMembers gs

def Geometry.FilledMembers : List Geometry → Prop
  | [] => True
  | g :: gs => g.Filled ∧ Geometry.FilledMembers gs

end

/-- A geometry among values is filled. -/
def Value.Filled : Value → Prop
  | .geometry g => g.Filled
  | _ => True

namespace Geometry

@[simp] theorem filledMembers_iff (gs : List Geometry) :
    FilledMembers gs ↔ ∀ g ∈ gs, g.Filled := by
  induction gs with
  | nil => simp [FilledMembers]
  | cons g gs ih => simp [FilledMembers, ih]

/-! ## Moved coordinates -/

section

variable (f : Coord → Coord)

mutual

/-- Moving coordinates keeps every list as long as it is. -/
theorem filled_traverse (g : Geometry) (hg : g.Filled) :
    (g.traverse fun c => (pure (f c) : Id Coord)).run.Filled := by
  cases g with
  | point c | lineString cs | multiPoint cs => simp [traverse, Filled]
  | polygon rs | multiLineString rs =>
    simp only [Filled] at hg
    simpa [traverse, Filled] using hg
  | multiPolygon ps =>
    simp only [Filled] at hg
    simpa [traverse, Filled] using hg
  | collection gs =>
    simp only [Filled, filledMembers_iff] at hg
    have hmembers := filled_traverseMembers gs [] hg (by simp)
    simpa [traverse, Filled] using hmembers

theorem filled_traverseMembers (gs done : List Geometry) (hgs : ∀ g ∈ gs, g.Filled)
    (hdone : ∀ g ∈ done, g.Filled) :
    ∀ g ∈ (traverseMembers (fun c => (pure (f c) : Id Coord)) gs done).run, g.Filled := by
  cases gs with
  | nil => simpa [traverseMembers] using hdone
  | cons g gs =>
    obtain ⟨hg, hgs⟩ := List.forall_mem_cons.1 hgs
    have hcons := List.forall_mem_cons.2 ⟨filled_traverse g hg, hdone⟩
    simpa [traverseMembers] using filled_traverseMembers gs _ hgs hcons

end

theorem filled_mapCoords {g : Geometry} (hg : g.Filled) : (g.mapCoords f).Filled :=
  filled_traverse f g hg

end

/-! ## Leaves -/

mutual

theorem filled_leavesOnto (g : Geometry) (seen : List Geometry) (hg : g.Filled)
    (hseen : ∀ x ∈ seen, x.Filled) : ∀ x ∈ g.leavesOnto seen, x.Filled := by
  cases g with
  | collection gs =>
    simp only [Filled, filledMembers_iff] at hg
    exact filled_leavesOntoMembers gs seen hg hseen
  | _ =>
    simp only [leavesOnto]
    exact List.forall_mem_cons.2 ⟨hg, hseen⟩

theorem filled_leavesOntoMembers (gs seen : List Geometry) (hgs : ∀ g ∈ gs, g.Filled)
    (hseen : ∀ x ∈ seen, x.Filled) : ∀ x ∈ leavesOntoMembers gs seen, x.Filled := by
  cases gs with
  | nil => simpa [leavesOntoMembers] using hseen
  | cons g gs =>
    obtain ⟨hg, hgs⟩ := List.forall_mem_cons.1 hgs
    rw [leavesOntoMembers]
    exact filled_leavesOntoMembers gs _ hgs (filled_leavesOnto g seen hg hseen)

end

theorem filled_flatten {g : Geometry} (hg : g.Filled) : (collection g.flatten).Filled := by
  have hleaves := filled_leavesOnto g [] hg (by simp)
  simpa [Filled, flatten] using hleaves

/-- A collection of points is filled. -/
theorem filled_points {α : Type} (f : α → Coord) (as : List α) :
    (collection (as.map fun a => point (f a))).Filled := by
  simp [Filled]

theorem filled_join {a b : Geometry} (ha : a.Filled) (hb : b.Filled) : (a.join b).Filled := by
  unfold join
  split
  · trivial
  · trivial
  · trivial
  · trivial
  · trivial
  · trivial
  · simp only [Filled, filledMembers_iff] at ha hb ⊢
    exact List.forall_mem_append.2 ⟨ha, hb⟩
  · simp only [Filled, filledMembers_iff] at ha ⊢
    exact List.forall_mem_append.2 ⟨ha, by simpa using hb⟩
  · simpa [Filled] using ⟨ha, hb⟩

end Geometry

/-! ## Operations -/

/-- If the computation gives a value, it is filled. -/
def GivesFilled (x : Except EvalFault Value) : Prop := ∀ v, x = .ok v → v.Filled

theorem givesFilled_ok {v : Value} (hv : v.Filled) : GivesFilled (.ok v) := by
  intro u hu
  rw [← Except.ok.inj hu]
  exact hv

theorem givesFilled_error (fault : EvalFault) : GivesFilled (.error fault) := by
  intro u hu
  cases hu

theorem givesFilled_bind {α : Type} {x : Except EvalFault α} {f : α → Except EvalFault Value}
    (hf : ∀ a, x = .ok a → GivesFilled (f a)) : GivesFilled (x >>= f) := by
  cases x with
  | ok a => exact hf a rfl
  | error fault => exact givesFilled_error fault

theorem givesFilled_map {α : Type} {x : Except EvalFault α} {f : α → Value}
    (hf : ∀ a, x = .ok a → (f a).Filled) : GivesFilled (x.map f) := by
  cases x with
  | ok a => exact givesFilled_ok (hf a rfl)
  | error fault => exact givesFilled_error fault

namespace Geometry

variable {op : ArithOp} {f : Float → Float → Float} {a b g : Geometry}

theorem filled_combine (ha : a.Filled) (hb : b.Filled) (h : combine op f a b = .ok g) :
    g.Filled := by
  unfold combine at h
  split at h
  · obtain rfl := Except.ok.inj h
    trivial
  · cases hp : pairwise op f _ _ with
    | ok cs =>
      rw [hp] at h
      obtain rfl := Except.ok.inj h
      trivial
    | error e =>
      rw [hp] at h
      cases h
  · cases hp : pairwise op f _ _ with
    | ok cs =>
      rw [hp] at h
      obtain rfl := Except.ok.inj h
      trivial
    | error e =>
      rw [hp] at h
      cases h
  · obtain rfl := Except.ok.inj h
    exact filled_mapCoords _ hb
  · obtain rfl := Except.ok.inj h
    exact filled_mapCoords _ ha
  · cases h

end Geometry

namespace Value

open GeoScript.Geometry

theorem givesFilled_arith (op : ArithOp) {l r : Value} (hl : l.Filled) (hr : r.Filled) :
    GivesFilled (arith op l r) := by
  unfold arith arithWith
  split
  · exact givesFilled_ok trivial
  · exact givesFilled_map fun g hg => filled_combine (by trivial) hr hg
  · exact givesFilled_map fun g hg => filled_combine hl (by trivial) hg
  · exact givesFilled_map fun g hg => filled_combine hl hr hg
  · exact givesFilled_error _

theorem givesFilled_concat {l r : Value} (hl : l.Filled) (hr : r.Filled) :
    GivesFilled (concat l r) := by
  unfold concat
  split
  · exact givesFilled_ok (filled_join hl hr)
  · exact givesFilled_error _

theorem givesFilled_compare (op : CompareOp) (l r : Value) : GivesFilled (compare op l r) := by
  unfold compare
  split
  · exact givesFilled_ok trivial
  · exact givesFilled_error _

/-- An element of a list is one of the list. -/
theorem mem_of_elementOf {α : Type} {xs : List α} {v : Value} {a : α}
    (h : elementOf xs v = .ok a) : a ∈ xs := by
  unfold elementOf at h
  cases hi : v.asInteger .index with
  | error fault =>
    rw [hi] at h
    cases h
  | ok i =>
    rw [hi] at h
    cases i with
    | negSucc n => cases h
    | ofNat n =>
      simp only [bind, Except.bind] at h
      split at h
      · next x hx =>
        obtain rfl := Except.ok.inj h
        exact List.mem_of_getElem? hx
      · cases h

theorem givesFilled_access {target : Value} (ht : target.Filled) (property : String)
    (args : List Value) : GivesFilled (target.access property args) := by
  have hread : ∀ {v : Value}, v.Filled → GivesFilled (readWith property args v) := by
    intro v hv
    unfold readWith
    split
    · exact givesFilled_ok hv
    · exact givesFilled_error _
  have helement : ∀ {α : Type} (xs : List α) (wrap : α → Value), (∀ a ∈ xs, (wrap a).Filled) →
      GivesFilled (elementWith property args xs wrap) := by
    intro α xs wrap hwrap
    unfold elementWith
    split
    · exact givesFilled_map fun a ha => hwrap a (mem_of_elementOf ha)
    · exact givesFilled_error _
  have haxis : ∀ x replace, GivesFilled (axisWith property args x replace) := by
    intro x replace
    unfold axisWith
    split
    · exact givesFilled_ok trivial
    · exact givesFilled_map fun _ _ => trivial
    · exact givesFilled_error _
  unfold access
  split
  · split
    · exact hread trivial
    · exact haxis _ _
    · exact haxis _ _
    · exact hread trivial
    · refine helement _ _ fun g hg => ?_
      simp only [Value.Filled, Geometry.Filled, filledMembers_iff] at ht
      exact ht g hg
    · exact hread trivial
    · exact helement _ _ fun _ _ => trivial
    · exact givesFilled_error _
  · exact givesFilled_error _

theorem filled_of_asGeometry {v : Value} {g : Geometry} (hv : v.Filled)
    (h : v.asGeometry = .ok g) : g.Filled := by
  cases v with
  | geometry x =>
    obtain rfl := Except.ok.inj h
    exact hv
  | _ => cases h

end Value

/-! ## Libraries -/

namespace Library

open GeoScript.Geometry

variable {args : List Value}

theorem filled_argument (ha : ∀ v ∈ args, v.Filled) (i : Nat) : (argument args i).Filled := by
  unfold argument
  rw [List.getD_eq_getElem?_getD]
  cases h : args[i]? with
  | none => trivial
  | some v => exact ha v (List.mem_of_getElem? h)

theorem filled_toPolygon (cs : List Coord) : (Shapes.toPolygon cs).Filled := by
  unfold Shapes.toPolygon
  split
  · simp [Geometry.Filled]
  · next hne =>
    have hclose : Shapes.close cs ≠ [] := by
      unfold Shapes.close
      split
      · split
        · simpa using hne
        · simp
      · simpa using hne
    simpa [Geometry.Filled] using hclose

theorem givesFilled_round {v : Value} (hv : v.Filled) (places : Nat) :
    GivesFilled (Shapes.round places v) := by
  unfold Shapes.round
  split
  · exact givesFilled_ok trivial
  · exact givesFilled_ok (filled_mapCoords _ hv)
  · exact givesFilled_error _

theorem givesFilled_conversion {make : List Coord → Geometry} (hmake : ∀ cs, (make cs).Filled)
    {f : List Value → Except EvalFault Value} (h : Shapes.conversion make = .function f) :
    GivesFilled (f args) := by
  obtain rfl := Builtin.function.inj h
  exact givesFilled_bind fun cs _ => givesFilled_ok (hmake cs)

theorem givesFilled_shapes {name : String} {f : List Value → Except EvalFault Value}
    (h : Shapes.builtin? name = some (.function f)) (ha : ∀ v ∈ args, v.Filled) :
    GivesFilled (f args) := by
  unfold Shapes.builtin? at h
  split at h
  · obtain rfl := Builtin.function.inj (Option.some.inj h)
    exact givesFilled_bind fun g hg =>
      givesFilled_ok (filled_flatten (Value.filled_of_asGeometry (filled_argument ha 0) hg))
  · obtain rfl := Builtin.function.inj (Option.some.inj h)
    refine givesFilled_bind fun radius _ => givesFilled_bind fun count _ => ?_
    refine givesFilled_bind fun g hg => givesFilled_ok ?_
    unfold Shapes.pointCircle at hg
    split at hg
    · obtain rfl := Except.ok.inj hg
      exact filled_points _ _
    · cases hg
  · obtain rfl := Builtin.function.inj (Option.some.inj h)
    have hgrid : ∀ width height spacing, GivesFilled (Shapes.pointGrid width height spacing >>=
        fun g => pure (.geometry g)) := by
      intro width height spacing
      refine givesFilled_bind fun g hg => givesFilled_ok ?_
      unfold Shapes.pointGrid at hg
      split at hg
      · obtain rfl := Except.ok.inj hg
        exact filled_points _ _
      · cases hg
    refine givesFilled_bind fun width _ => givesFilled_bind fun height _ => ?_
    split
    · exact givesFilled_bind fun spacing _ => hgrid width height spacing
    · exact givesFilled_bind fun spacing _ => hgrid width height spacing
  · exact givesFilled_conversion (fun _ => by trivial) (Option.some.inj h)
  · exact givesFilled_conversion (fun _ => by trivial) (Option.some.inj h)
  · exact givesFilled_conversion filled_toPolygon (Option.some.inj h)
  · exact givesFilled_conversion (fun cs => filled_points id cs) (Option.some.inj h)
  · obtain rfl := Builtin.function.inj (Option.some.inj h)
    refine givesFilled_bind fun angle _ => givesFilled_bind fun pivot _ => ?_
    refine givesFilled_bind fun g hg => givesFilled_ok ?_
    exact filled_mapCoords _ (Value.filled_of_asGeometry (filled_argument ha 2) hg)
  · obtain rfl := Builtin.function.inj (Option.some.inj h)
    exact givesFilled_bind fun places _ => givesFilled_round (filled_argument ha 1) places
  · cases h

/-- The functions of `math` give numbers. -/
theorem givesFilled_math {name : String} {f : List Value → Except EvalFault Value}
    (h : Math.builtin? name = some (.function f)) : GivesFilled (f args) := by
  unfold Math.builtin? at h
  split at h
  · cases h
  · split at h
    · obtain rfl := Builtin.function.inj (Option.some.inj h)
      exact givesFilled_bind fun _ _ => givesFilled_ok trivial
    · obtain rfl := Builtin.function.inj (Option.some.inj h)
      exact givesFilled_bind fun _ _ => givesFilled_bind fun _ _ => givesFilled_ok trivial
    · obtain rfl := Builtin.function.inj (Option.some.inj h)
      exact givesFilled_bind fun _ _ => givesFilled_ok trivial
    · cases h

/-- **Library functions make filled geometries of filled ones.** -/
theorem givesFilled_builtin {l : Library} {library name : String}
    {f : List Value → Except EvalFault Value} (hl : find? library = some l)
    (h : l.builtin? name = some (.function f)) (ha : ∀ v ∈ args, v.Filled) :
    GivesFilled (f args) := by
  have hmem : l ∈ standard := List.mem_of_find?_eq_some hl
  simp only [standard, List.mem_cons, List.not_mem_nil, or_false] at hmem
  rcases hmem with rfl | rfl
  · exact givesFilled_math h
  · exact givesFilled_shapes h ha

end Library

end GeoScript
