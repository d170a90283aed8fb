import GeoScript.Proofs.Callbacks
import GeoScript.Proofs.InTurn
import GeoScript.Proofs.Outline

/-!
# What pipelines visit

**Visits.** A map and a filter visit the elements of their source, a deep map visits its coordinates
as points. The callback is called on them in turn, from left to right and with indices from zero on.
It may fail and may change a state. The first call that fails is the last one, and so is the first
that returns a value of the wrong type (`Walk.Performed`). When all goes well, a map makes a geometry
of the same kind from the results, a filter keeps the elements whose call gave true, and a deep map
keeps the outline (`Walk.Makes`).

**Theorem (`pipelines_in_turn`).** This is what the three pipelines do with every source, callback
and state. Where the coordinates of a source are its elements, a map and a deep map make the same
calls and come to the same; for a collection of points this is so if the calls return nothing but
points.

Each of the pipelines is a walk over a list with a check of what was returned (`checked`); lists are
walked in turn by `inTurn_mapM`.
-/

namespace GeoScript

open Pipeline

variable {σ : Type}

/-! ## Lists with indices -/

namespace Pipeline

variable {α β : Type}

/-- A map with indices is a map of the list with its indices. -/
theorem mapFrom_eq (f : α → Nat → Effect σ β) (i : Nat) (as : List α) (done : List β) :
    mapFrom f i as done =
      (as.zipIdx i).mapM (fun x => f x.1 x.2) >>= fun bs => pure (done.reverse ++ bs) := by
  induction as generalizing i done with
  | nil => simp [mapFrom]
  | cons a as ih =>
    rw [mapFrom, List.zipIdx_cons, List.mapM_cons]
    simp [ih]

/-- A filter asks about the entries in turn, and keeps those that were chosen. -/
theorem filterFrom_eq (test : α → Nat → Effect σ Bool) (i : Nat) (as done : List α) :
    filterFrom test i as done = (as.zipIdx i).mapM (fun x => test x.1 x.2) >>= fun bs =>
      pure (done.reverse ++ Effect.chosen as bs) := by
  induction as generalizing i done with
  | nil => simp [filterFrom, Effect.chosen]
  | cons a as ih =>
    rw [filterFrom, List.zipIdx_cons, List.mapM_cons]
    simp only [ih, bind_assoc, pure_bind]
    congr 1
    funext b
    cases b <;> simp [Effect.chosen]

end Pipeline

/-! ## Calls and checks -/

namespace Walk

/-- Calls a callback with an element and its index. -/
def callOn (cb : Callback σ) (x : Geometry × Nat) : Effect σ Value := cb (.geometry x.1) x.2

/-- Calls a callback and checks what it returns. -/
def checked {β : Type} (cb : Callback σ) (line : Nat) (accept : Value → Except EvalFault β)
    (x : Geometry × Nat) : Effect σ β := do
  .ofExcept line (accept (← callOn cb x))

/-- What a walk goes through, from left to right. A repetition goes through nothing. -/
def visits : Walk → List Geometry
  | map source | filter source => (elements? source).getD []
  | deepMap (.geometry g) => g.coords.map .point
  | deepMap _ | generate _ => []

/-- What the values that a callback returned make of the source. -/
inductive Makes : Walk → List Value → Geometry → Prop
  /-- As many elements, in a geometry of the same kind. -/
  | map {g r : Geometry} {gs gs' : List Geometry} : elements? (.geometry g) = some gs →
    r.kind = g.kind → elements? (.geometry r) = some gs' → gs'.length = gs.length →
      Makes (.map (.geometry g)) (gs'.map .geometry) r
  /-- The elements for which the callback returned true, in a geometry of the same kind. -/
  | filter {g r : Geometry} {gs : List Geometry} {bs : List Bool} :
    elements? (.geometry g) = some gs → r.kind = g.kind →
    elements? (.geometry r) = some (Effect.chosen gs bs) →
      Makes (.filter (.geometry g)) (bs.map .bool) r
  /-- Other coordinates, in the same outline. -/
  | deepMap {g r : Geometry} : r.outline = g.outline →
    Makes (.deepMap (.geometry g)) (r.coords.map .point) r

/-- What a pipeline comes to: the calls that it makes, its outcome, and the state that it leaves. -/
inductive Performed (w : Walk) (cb : Callback σ) (line : Nat) (s : σ) :
    List (Geometry × Nat) → Except EvalError Value × σ → Prop
  /-- The source has nothing to go through. -/
  | refused {fault : EvalFault} : w.calls = .error fault →
    Performed w cb line s [] (.error ⟨fault, line⟩, s)
  /-- All calls succeed and return values of the right type. -/
  | done {vs : List Value} {r : Geometry} {t : σ} : Calls (callOn cb) s w.visits.zipIdx vs t →
    (∀ v ∈ vs, w.fault? v = none) → w.Makes vs r →
      Performed w cb line s w.visits.zipIdx (.ok (.geometry r), t)
  /-- The last call fails. -/
  | failed {before after : List (Geometry × Nat)} {x : Geometry × Nat} {vs : List Value}
    {e : EvalError} {t u : σ} : w.visits.zipIdx = before ++ x :: after →
    Calls (callOn cb) s before vs t → (∀ v ∈ vs, w.fault? v = none) →
    (callOn cb x).run.run t = (.error e, u) →
      Performed w cb line s (before ++ [x]) (.error e, u)
  /-- The last call returns a value of the wrong type. -/
  | mistyped {before after : List (Geometry × Nat)} {x : Geometry × Nat} {vs : List Value}
    {v : Value} {fault : EvalFault} {t u : σ} : w.visits.zipIdx = before ++ x :: after →
    Calls (callOn cb) s before vs t → (∀ v ∈ vs, w.fault? v = none) →
    (callOn cb x).run.run t = (.ok v, u) → w.fault? v = some fault →
      Performed w cb line s (before ++ [x]) (.error ⟨fault, line⟩, u)

section Checked

variable {β : Type} {w : Walk} {accept : Value → Except EvalFault β} {wrap : β → Value}
  {cb : Callback σ} {line : Nat} {s t : σ} {x : Geometry × Nat}

/-- A check passes when the call returns a value of the right type. -/
theorem Judged.of_checked_ok (hw : w.Judged accept wrap) {b : β}
    (h : (checked cb line accept x).run.run s = (.ok b, t)) :
    (callOn cb x).run.run s = (.ok (wrap b), t) ∧ w.fault? (wrap b) = none := by
  rw [checked, run_bind] at h
  rcases hcall : (callOn cb x).run.run s with ⟨e | v, u⟩
  · rw [hcall] at h
    cases h
  · rw [hcall] at h
    rcases hw v with ⟨b', haccept, rfl, hfault⟩ | ⟨fault, haccept, -⟩
    · dsimp only at h
      rw [haccept] at h
      cases h
      exact ⟨rfl, hfault⟩
    · dsimp only at h
      rw [haccept] at h
      cases h

/-- It does not when the call fails, or returns a value of the wrong type. -/
theorem Judged.of_checked_error (hw : w.Judged accept wrap) {e : EvalError}
    (h : (checked cb line accept x).run.run s = (.error e, t)) :
    (callOn cb x).run.run s = (.error e, t) ∨ ∃ v fault,
      (callOn cb x).run.run s = (.ok v, t) ∧ w.fault? v = some fault ∧ e = ⟨fault, line⟩ := by
  rw [checked, run_bind] at h
  rcases hcall : (callOn cb x).run.run s with ⟨e' | v, u⟩
  · rw [hcall] at h
    cases h
    exact .inl rfl
  · rw [hcall] at h
    rcases hw v with ⟨b, haccept, -, -⟩ | ⟨fault, haccept, hfault⟩
    · dsimp only at h
      rw [haccept] at h
      cases h
    · dsimp only at h
      rw [haccept] at h
      cases h
      exact .inr ⟨v, fault, rfl, hfault, rfl⟩

theorem Judged.calls (hw : w.Judged accept wrap) {xs : List (Geometry × Nat)} {bs : List β}
    (h : Calls (checked cb line accept) s xs bs t) :
    Calls (callOn cb) s xs (bs.map wrap) t ∧ ∀ v ∈ bs.map wrap, w.fault? v = none := by
  induction h with
  | nil => exact ⟨.nil, nofun⟩
  | cons ha _ ih =>
    obtain ⟨hcall, hfault⟩ := hw.of_checked_ok ha
    exact ⟨.cons hcall ih.1, List.forall_mem_cons.2 ⟨hfault, ih.2⟩⟩

/-- What a checked walk through the parts of a source comes to. -/
theorem Judged.performed (hw : w.Judged accept wrap) {build : List β → Geometry}
    (hmakes : ∀ bs, bs.length = w.visits.length → w.Makes (bs.map wrap) (build bs))
    (cb : Callback σ) (line : Nat) (s : σ) : ∃ made, w.Performed cb line s made
      ((do return .geometry (build (← w.visits.zipIdx.mapM (checked cb line accept))) :
        Effect σ Value).runOn s) := by
  rw [Effect.runOn, run_bind]
  have hturn := inTurn_mapM (checked cb line accept) w.visits.zipIdx s
  generalize (w.visits.zipIdx.mapM (checked cb line accept)).run.run s = r at hturn
  cases hturn with
  | done hcalls =>
    obtain ⟨hcalled, hright⟩ := hw.calls hcalls
    refine ⟨_, .done hcalled hright (hmakes _ ?_)⟩
    rw [hcalls.length_eq, List.length_zipIdx]
  | failed hsplit hcalls he =>
    obtain ⟨hcalled, hright⟩ := hw.calls hcalls
    rcases hw.of_checked_error he with hfails | ⟨v, fault, hreturns, hfault, rfl⟩
    · exact ⟨_, .failed hsplit hcalled hright hfails⟩
    · exact ⟨_, .mistyped hsplit hcalled hright hreturns hfault⟩

end Checked

/-! ## Each pipeline -/

section Pipelines

variable {line : Nat} {cb : Callback σ}

theorem mapFrom_points (cs : List Coord) : mapFrom (mapCoord line cb) 0 cs [] =
    (cs.map Geometry.point).zipIdx.mapM (checked cb line pointResult) := by
  have hstep : mapCoord line cb = fun c i => checked cb line pointResult (.point c, i) := by
    funext c i
    rw [mapCoord, resultPoint_eq]
    rfl
  rw [mapFrom_eq, hstep, List.zipIdx_map, List.mapM_map]
  simp only [List.reverse_nil, List.nil_append, bind_pure]
  rfl

theorem mapFrom_members (gs : List Geometry) : mapFrom (mapMember line cb) 0 gs [] =
    gs.zipIdx.mapM (checked cb line
      (geometryResult fun name => .typeMismatch (.callbackGeometry name))) := by
  have hstep : mapMember line cb = fun g i => checked cb line
      (geometryResult fun name => .typeMismatch (.callbackGeometry name)) (g, i) := by
    funext g i
    rw [mapMember, resultGeometry_eq]
    rfl
  rw [mapFrom_eq, hstep]
  simp

theorem filterFrom_points (cs : List Coord) : filterFrom (keeps line cb .point) 0 cs [] =
    (cs.map Geometry.point).zipIdx.mapM (checked cb line Value.asBool) >>= fun bs =>
      pure (Effect.chosen cs bs) := by
  have hstep : keeps line cb Value.point = fun c i => checked cb line Value.asBool (.point c, i) :=
    rfl
  rw [filterFrom_eq, hstep, List.zipIdx_map, List.mapM_map]
  rfl

theorem filterFrom_members (gs : List Geometry) : filterFrom (keeps line cb .geometry) 0 gs [] =
    gs.zipIdx.mapM (checked cb line Value.asBool) >>= fun bs => pure (Effect.chosen gs bs) := by
  have hstep : keeps line cb Value.geometry = fun g i => checked cb line Value.asBool (g, i) := rfl
  rw [filterFrom_eq, hstep]
  rfl

/-- The points among values. -/
theorem map_point_eq (cs : List Coord) :
    cs.map Value.point = (cs.map Geometry.point).map Value.geometry := by
  rw [List.map_map]
  rfl

theorem chosen_map {α β : Type} (f : α → β) (as : List α) (bs : List Bool) :
    Effect.chosen (as.map f) bs = (Effect.chosen as bs).map f := by
  rw [Effect.chosen, Effect.chosen, List.zip_map_left, List.filter_map, List.map_map, List.map_map]
  rfl

theorem performed_map (cb : Callback σ) (line : Nat) (source : Value) (s : σ) :
    ∃ made, (map source).Performed cb line s made ((Pipeline.map line cb source).runOn s) := by
  cases source with
  | geometry g =>
    cases g with
    | lineString cs =>
      rw [Pipeline.map, mapFrom_points]
      refine (judged_line cs).performed ?_ cb line s
      intro ds hds
      rw [map_point_eq]
      exact .map rfl rfl rfl (by simpa [visits, elements?] using hds)
    | multiPoint cs =>
      rw [Pipeline.map, mapFrom_points]
      refine (judged_points cs).performed ?_ cb line s
      intro ds hds
      rw [map_point_eq]
      exact .map rfl rfl rfl (by simpa [visits, elements?] using hds)
    | collection gs =>
      rw [Pipeline.map, mapFrom_members]
      refine (judged_members gs).performed ?_ cb line s
      intro gs' hlength
      exact .map rfl rfl rfl hlength
    | _ => exact ⟨[], .refused rfl⟩
  | _ => exact ⟨[], .refused rfl⟩

theorem performed_filter (cb : Callback σ) (line : Nat) (source : Value) (s : σ) :
    ∃ made, (filter source).Performed cb line s made
      ((Pipeline.filter line cb source).runOn s) := by
  cases source with
  | geometry g =>
    cases g with
    | lineString cs =>
      rw [Pipeline.filter, filterFrom_points, bind_assoc]
      refine (judged_filter _).performed ?_ cb line s
      intro bs _
      exact .filter rfl rfl (congrArg some (chosen_map _ cs bs).symm)
    | multiPoint cs =>
      rw [Pipeline.filter, filterFrom_points, bind_assoc]
      refine (judged_filter _).performed ?_ cb line s
      intro bs _
      exact .filter rfl rfl (congrArg some (chosen_map _ cs bs).symm)
    | collection gs =>
      rw [Pipeline.filter, filterFrom_members, bind_assoc]
      refine (judged_filter _).performed ?_ cb line s
      intro bs _
      exact .filter rfl rfl rfl
    | _ => exact ⟨[], .refused rfl⟩
  | _ => exact ⟨[], .refused rfl⟩

theorem performed_deepMap (cb : Callback σ) (line : Nat) (source : Value) (s : σ) :
    ∃ made, (deepMap source).Performed cb line s made
      ((Pipeline.deepMap line cb source).runOn s) := by
  cases source with
  | geometry g =>
    rw [deepMap_eq, mapFrom_points]
    refine (judged_deepMap (.geometry g)).performed ?_ cb line s
    intro ds hds
    have hlength : ds.length = g.coords.length := by simpa [visits] using hds
    have hmakes := Makes.deepMap (Geometry.outline_refill g ds hlength)
    rwa [Geometry.coords_refill g ds hlength] at hmakes
  | _ => exact ⟨[], .refused rfl⟩

/-! ## Maps that are deep -/

/-- What was done with the same visits can be told of another pipeline, if that does not object to
the values and makes the same of them. -/
theorem Performed.transfer {w w' : Walk} {s : σ} {made : List (Geometry × Nat)}
    {out : Except EvalError Value × σ} (h : w.Performed cb line s made out)
    (hcalls : ∀ fault, w.calls ≠ .error fault) (hvisits : w'.visits = w.visits)
    (hfault : ∀ v, Returned (callOn cb) s w.visits.zipIdx v → w'.fault? v = w.fault? v)
    (hmakes : ∀ vs r, (∀ v ∈ vs, Returned (callOn cb) s w.visits.zipIdx v) →
      (∀ v ∈ vs, w.fault? v = none) → w.Makes vs r → w'.Makes vs r) :
    w'.Performed cb line s made out := by
  cases h with
  | refused hrefused => exact absurd hrefused (hcalls _)
  | done hcalled hright hmade =>
    have hreturned := hcalled.returned []
    rw [List.append_nil] at hreturned
    rw [← hvisits] at hcalled ⊢
    refine .done hcalled (fun v hv => ?_) (hmakes _ _ hreturned hright hmade)
    rw [hfault v (hreturned v hv), hright v hv]
  | @failed before after x vs e t u hsplit hcalled hright he =>
    have hreturned := hcalled.returned (x :: after)
    rw [← hsplit] at hreturned
    refine .failed (hvisits ▸ hsplit) hcalled (fun v hv => ?_) he
    rw [hfault v (hreturned v hv), hright v hv]
  | @mistyped before after x vs v fault t u hsplit hcalled hright hv hwrong =>
    have hreturned := hcalled.returned (x :: after)
    rw [← hsplit] at hreturned
    refine .mistyped (hvisits ▸ hsplit) hcalled (fun v hv => ?_) hv ?_
    · rw [hfault v (hreturned v hv), hright v hv]
    · rw [hfault v ⟨before, x, after, vs, t, u, hsplit, hcalled, hv⟩, hwrong]

/-- The coordinates of a source are its elements, and the calls on the members of a collection
return nothing but points. -/
inductive Shallow (cb : Callback σ) (s : σ) : Geometry → Prop
  | line {cs : List Coord} : Shallow cb s (.lineString cs)
  | points {cs : List Coord} : Shallow cb s (.multiPoint cs)
  | members {cs : List Coord} :
    (∀ v, Returned (callOn cb) s (cs.map Geometry.point).zipIdx v → ∃ c, v = .point c) →
      Shallow cb s (.collection (cs.map .point))

/-- A geometry whose elements are points is a line, a set of points or a collection of points. -/
theorem eq_of_elements {g : Geometry} {cs : List Coord}
    (h : elements? (.geometry g) = some (cs.map .point)) :
    g = .lineString cs ∨ g = .multiPoint cs ∨ g = .collection (cs.map .point) := by
  have hinj : Function.Injective (List.map Geometry.point) :=
    List.map_injective_iff.2 fun _ _ h => Geometry.point.inj h
  cases g with
  | lineString ds => exact .inl (congrArg _ (hinj (Option.some.inj h)))
  | multiPoint ds => exact .inr (.inl (congrArg _ (hinj (Option.some.inj h))))
  | collection gs => exact .inr (.inr (congrArg _ (Option.some.inj h)))
  | _ => cases h

theorem outlines_points (cs : List Coord) :
    Geometry.outlines (cs.map .point) = List.replicate cs.length .point := by
  induction cs with
  | nil => rfl
  | cons c cs ih =>
    rw [List.map_cons, Geometry.outlines, Geometry.outline, ih]
    rfl

theorem coords_points (cs : List Coord) :
    (Geometry.collection (cs.map .point)).coords = cs := by
  rw [Geometry.coords_collection, List.flatMap_map]
  simp

/-- What a map makes of points is what a deep map makes of them. -/
theorem makes_deepMap {g r : Geometry} {cs ds : List Coord}
    (hg : elements? (.geometry g) = some (cs.map .point))
    (hr : elements? (.geometry r) = some (ds.map .point)) (hkind : r.kind = g.kind)
    (hlength : ds.length = cs.length) :
    (deepMap (.geometry g)).Makes ((ds.map .point).map .geometry) r := by
  have houtline : r.outline = g.outline := by
    rcases eq_of_elements hg with rfl | rfl | rfl <;> rcases eq_of_elements hr with rfl | rfl | rfl
    all_goals simp only [Geometry.kind, reduceCtorEq] at hkind
    · rw [Geometry.outline, Geometry.outline, hlength]
    · rw [Geometry.outline, Geometry.outline, hlength]
    · rw [Geometry.outline, Geometry.outline, outlines_points, outlines_points, hlength]
  have hcoords : r.coords = ds := by
    rcases eq_of_elements hr with rfl | rfl | rfl
    · exact Geometry.coords_lineString ds
    · exact Geometry.coords_multiPoint ds
    · exact coords_points ds
  have hmakes := Makes.deepMap houtline
  rwa [hcoords, map_point_eq] at hmakes

/-- Calls that return points pass as calls that return geometries. -/
theorem runOn_checked_points {xs : List (Geometry × Nat)} {s : σ}
    (h : ∀ v, Returned (callOn cb) s xs v → ∃ c, v = .point c)
    (complaint : TypeName → EvalFault) :
    (xs.mapM (checked cb line (geometryResult complaint))).runOn s =
      let r := (xs.mapM (checked cb line pointResult)).runOn s
      (r.1.map (List.map .point), r.2) := by
  induction xs generalizing s with
  | nil => rfl
  | cons x xs ih =>
    rw [List.mapM_cons, List.mapM_cons]
    rcases hcall : (callOn cb x).runOn s with ⟨e | v, t⟩
    · have hboth {β : Type} (accept : Value → Except EvalFault β) :
          (checked cb line accept x).runOn s = (.error e, t) := Effect.runOn_bind_error hcall _
      rw [Effect.runOn_bind_error (hboth _), Effect.runOn_bind_error (hboth _)]
      rfl
    · obtain ⟨c, rfl⟩ := h v ⟨[], x, xs, [], s, t, rfl, .nil, hcall⟩
      have hgeometry : (checked cb line (geometryResult complaint) x).runOn s =
          (.ok (.point c), t) := Effect.runOn_bind_ok hcall _
      have hpoint : (checked cb line pointResult x).runOn s = (.ok c, t) :=
        Effect.runOn_bind_ok hcall _
      rw [Effect.runOn_bind_ok hgeometry, Effect.runOn_bind_ok hpoint, Effect.runOn_bind,
        Effect.runOn_bind, ih fun v hv => h v (hv.cons hcall)]
      rcases (xs.mapM (checked cb line pointResult)).runOn t with ⟨e | ds, u⟩ <;> rfl

theorem refill_points {cs ds : List Coord} (h : ds.length = cs.length) :
    (Geometry.collection (cs.map .point)).refill ds = .collection (ds.map .point) := by
  have hcoords : ds.length = (Geometry.collection (cs.map .point)).coords.length := by
    rw [coords_points, h]
  apply Geometry.eq_of_outline_of_coords
  · rw [Geometry.outline_refill _ _ hcoords, Geometry.outline, Geometry.outline, outlines_points,
      outlines_points, h]
  · rw [Geometry.coords_refill _ _ hcoords, coords_points]

/-- On such sources a deep map comes to what a map comes to. -/
theorem Shallow.runOn_deepMap {s : σ} {g : Geometry} (h : Shallow cb s g) (line : Nat) :
    (Pipeline.deepMap line cb (.geometry g)).runOn s =
      (Pipeline.map line cb (.geometry g)).runOn s := by
  cases h with
  | line =>
    rw [deepMap_eq, Geometry.coords_lineString, Pipeline.map]
    simp only [Geometry.refill]
  | points =>
    rw [deepMap_eq, Geometry.coords_multiPoint, Pipeline.map]
    simp only [Geometry.refill]
  | @members cs h =>
    rw [deepMap_eq, coords_points, mapFrom_points, Pipeline.map, mapFrom_members,
      Effect.runOn_bind, Effect.runOn_bind, runOn_checked_points h]
    have hturn := inTurn_mapM (checked cb line pointResult) (cs.map Geometry.point).zipIdx s
    rw [Effect.runOn]
    generalize ((cs.map Geometry.point).zipIdx.mapM (checked cb line pointResult)).run.run s = r
      at hturn
    cases hturn with
    | done hcalls =>
      have hlength := hcalls.length_eq
      rw [List.length_zipIdx, List.length_map] at hlength
      simp only [refill_points hlength]
      rfl
    | failed => rfl

theorem Shallow.exists_coords {s : σ} {g : Geometry} (h : Shallow cb s g) :
    ∃ cs, elements? (.geometry g) = some (cs.map .point) ∧ g.coords = cs := by
  cases h with
  | line => exact ⟨_, rfl, Geometry.coords_lineString _⟩
  | points => exact ⟨_, rfl, Geometry.coords_multiPoint _⟩
  | members => exact ⟨_, rfl, coords_points _⟩

/-- The two pipelines want the same of what the calls return, which is points. -/
theorem Shallow.fault?_eq {s : σ} {g : Geometry} (h : Shallow cb s g) {v : Value}
    (hv : Returned (callOn cb) s (map (.geometry g)).visits.zipIdx v) :
    (deepMap (.geometry g)).fault? v = (map (.geometry g)).fault? v ∧
      ((map (.geometry g)).fault? v = none → ∃ c, v = .point c) := by
  cases h with
  | line | points =>
    refine ⟨rfl, fun hnone => ?_⟩
    rcases judged_line [] v with ⟨c, -, hpoint, -⟩ | ⟨fault, -, hfault⟩
    · exact ⟨c, hpoint⟩
    · exact absurd (hfault.symm.trans hnone) nofun
  | members h =>
    obtain ⟨c, rfl⟩ := h v hv
    exact ⟨rfl, fun _ => ⟨c, rfl⟩⟩

theorem exists_eq_map_point {gs : List Geometry}
    (h : ∀ v ∈ gs.map Value.geometry, ∃ c, v = .point c) :
    ∃ ds : List Coord, gs = ds.map .point := by
  induction gs with
  | nil => exact ⟨[], rfl⟩
  | cons g gs ih =>
    rw [List.map_cons, List.forall_mem_cons] at h
    obtain ⟨⟨c, hc⟩, hrest⟩ := h
    obtain ⟨ds, rfl⟩ := ih hrest
    obtain rfl := Value.geometry.inj hc
    exact ⟨c :: ds, rfl⟩

/-- They also make the same calls. -/
theorem Shallow.performed {s : σ} {g : Geometry} (h : Shallow cb s g) {line : Nat}
    {made : List (Geometry × Nat)} {out : Except EvalError Value × σ}
    (hmap : (map (.geometry g)).Performed cb line s made out) :
    (deepMap (.geometry g)).Performed cb line s made out := by
  obtain ⟨cs, helements, hcoords⟩ := h.exists_coords
  refine hmap.transfer ?_ ?_ (fun v hv => (h.fault?_eq hv).1) ?_
  · intro fault hrefused
    rw [calls, helements] at hrefused
    cases hrefused
  · rw [visits, visits, helements, hcoords]
    rfl
  · intro vs r hreturned hright hmade
    cases hmade with
    | @map _ _ gs gs' hgs hkind hr hlength =>
      obtain ⟨ds, rfl⟩ := exists_eq_map_point fun v hv =>
        (h.fault?_eq (hreturned v hv)).2 (hright v hv)
      obtain rfl := Option.some.inj (hgs.symm.trans helements)
      rw [List.length_map, List.length_map] at hlength
      exact makes_deepMap helements hr hkind hlength

end Pipelines

/-! ## The theorem -/

/-- **Pipelines visit their sources in turn**, and a map is deep where coordinates are elements. -/
theorem pipelines_in_turn (cb : Callback σ) (line : Nat) (source : Value) (s : σ) :
    (∃ made, (map source).Performed cb line s made ((Pipeline.map line cb source).runOn s)) ∧
    (∃ made, (filter source).Performed cb line s made ((Pipeline.filter line cb source).runOn s)) ∧
    (∃ made, (deepMap source).Performed cb line s made
      ((Pipeline.deepMap line cb source).runOn s)) ∧
    ∀ g, source = .geometry g → Shallow cb s g →
      (Pipeline.deepMap line cb source).runOn s = (Pipeline.map line cb source).runOn s ∧
      ∃ made, (map source).Performed cb line s made ((Pipeline.map line cb source).runOn s) ∧
        (deepMap source).Performed cb line s made ((Pipeline.map line cb source).runOn s) := by
  refine ⟨performed_map cb line source s, performed_filter cb line source s,
    performed_deepMap cb line source s, ?_⟩
  rintro g rfl hshallow
  obtain ⟨made, hmap⟩ := performed_map cb line (.geometry g) s
  exact ⟨hshallow.runOn_deepMap line, made, hmap, hshallow.performed hmap⟩

/-- A callback that counts its calls and fails on the last of three points. -/
theorem pipelines_in_turn_counted :
    let cb : Callback Nat := fun _ i => do
      modify (· + 1)
      if i < 2 then return .point ⟨Float.ofNat i, 0⟩ else .fail (.unresolved "y") 1
    let g : Geometry := .collection [.point ⟨0, 0⟩, .point ⟨1, 1⟩, .point ⟨2, 2⟩]
    Shallow cb 0 g ∧
      (Pipeline.map 1 cb (.geometry g)).runOn 0 = (.error ⟨.unresolved "y", 1⟩, 3) ∧
      (Pipeline.deepMap 1 cb (.geometry g)).runOn 0 = (.error ⟨.unresolved "y", 1⟩, 3) ∧
      ∃ made, (map (.geometry g)).Performed cb 1 0 made (.error ⟨.unresolved "y", 1⟩, 3) ∧
        (deepMap (.geometry g)).Performed cb 1 0 made (.error ⟨.unresolved "y", 1⟩, 3) := by
  intro cb g
  have hshallow : Shallow cb 0 g := by
    change Shallow cb 0 (.collection ([⟨0, 0⟩, ⟨1, 1⟩, ⟨2, 2⟩].map .point))
    apply Shallow.members
    rintro v ⟨before, ⟨x, i⟩, after, bs, t, u, -, -, hreturns⟩
    by_cases hi : i < 2
    · have hpoint : (callOn cb (x, i)).run.run t = (.ok (.point ⟨Float.ofNat i, 0⟩), t + 1) := by
        simp only [callOn, cb, if_pos hi]
        rfl
      rw [hpoint] at hreturns
      exact ⟨_, (Except.ok.inj (Prod.mk.inj hreturns).1).symm⟩
    · have hfails : (callOn cb (x, i)).run.run t = (.error ⟨.unresolved "y", 1⟩, t + 1) := by
        simp only [callOn, cb, if_neg hi]
        rfl
      rw [hfails] at hreturns
      cases hreturns
  have hmap : (Pipeline.map 1 cb (.geometry g)).runOn 0 = (.error ⟨.unresolved "y", 1⟩, 3) := by
    rfl
  obtain ⟨heq, made, hmade⟩ := (pipelines_in_turn cb 1 (.geometry g) 0).2.2.2 g rfl hshallow
  rw [hmap] at heq hmade
  exact ⟨hshallow, hmap, heq, made, hmade⟩

end Walk

end GeoScript
