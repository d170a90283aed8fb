import GeoScript.Proofs.Pairs

/-!
# Reading geometries

**Shapes.** The name of a shape is read with `EMPTY`, or with lists of positions in parentheses, down
to three levels deep. Each level is a list whose items are read by the level below.

**Theorem (`takes_geometry`).** Every geometry has marks, and an expression is read from them whose
value is the geometry. Members of collections are expressions in their turn, so that this is an
induction on the geometry, for any number of unrollings at once.
-/

namespace GeoScript

open Token (Kind)
open TokenReader Grammar

/-! ## Values of lists -/

theorem Element.gives_coords {cs : List Coord} {es : List Element}
    (h : List.Forall₂ IsCoord cs es) (ctx : Context) : (Element.coords ctx es []).Gives cs :=
  Effect.Gives.list (fun _ => by rw [Element.coords]) (fun _ _ _ => by rw [Element.coords])
    (h.imp fun _ _ he => he ctx) []

theorem Element.gives_members {gs : List Geometry} {es : List Element}
    (h : List.Forall₂ IsMember gs es) (ctx : Context) : (Element.members ctx es []).Gives gs :=
  Effect.Gives.list (fun _ => by rw [Element.members]) (fun _ _ _ => by rw [Element.members])
    (h.imp fun _ _ he => he ctx) []

theorem Element.gives_rings {rs : List (List Coord)} {es : List (List Element)}
    (h : List.Forall₂ (List.Forall₂ IsCoord) rs es) (ctx : Context) :
    (Element.rings ctx es []).Gives rs :=
  Effect.Gives.list (fun _ => by rw [Element.rings]) (fun _ _ _ => by rw [Element.rings])
    (h.imp fun _ _ he => Element.gives_coords he ctx) []

theorem Element.gives_polygons {ps : List (List (List Coord))} {es : List (List (List Element))}
    (h : List.Forall₂ (List.Forall₂ (List.Forall₂ IsCoord)) ps es) (ctx : Context) :
    (Element.polygons ctx es []).Gives ps :=
  Effect.Gives.list (fun _ => by rw [Element.polygons]) (fun _ _ _ => by rw [Element.polygons])
    (h.imp fun _ _ he => Element.gives_rings he ctx) []

namespace Body

theorem denotes_lineString {cs : List Coord} {es : List Element}
    (h : List.Forall₂ Element.IsCoord cs es) :
    (Body.elements es).Denotes .lineString (.lineString cs) := by
  intro ctx
  rw [Body.eval]
  · exact (Element.gives_coords h ctx).bind (.pure _)
  · nofun
  · nofun

theorem denotes_multiPoint {cs : List Coord} {es : List Element}
    (h : List.Forall₂ Element.IsCoord cs es) :
    (Body.elements es).Denotes .multiPoint (.multiPoint cs) := by
  intro ctx
  rw [Body.eval]
  exact (Element.gives_coords h ctx).bind (.pure _)

theorem denotes_collection {gs : List Geometry} {es : List Element}
    (h : List.Forall₂ Element.IsMember gs es) :
    (Body.elements es).Denotes .collection (.collection gs) := by
  intro ctx
  rw [Body.eval]
  exact (Element.gives_members h ctx).bind (.pure _)

theorem denotes_polygon {rs : List (List Coord)} {es : List (List Element)}
    (h : List.Forall₂ (List.Forall₂ Element.IsCoord) rs es) :
    (Body.rings es).Denotes .polygon (.polygon rs) := by
  intro ctx
  rw [Body.eval]
  · exact (Element.gives_rings h ctx).bind (.pure _)
  · nofun

theorem denotes_multiLineString {rs : List (List Coord)} {es : List (List Element)}
    (h : List.Forall₂ (List.Forall₂ Element.IsCoord) rs es) :
    (Body.rings es).Denotes .multiLineString (.multiLineString rs) := by
  intro ctx
  rw [Body.eval]
  exact (Element.gives_rings h ctx).bind (.pure _)

theorem denotes_multiPolygon {ps : List (List (List Coord))} {es : List (List (List Element))}
    (h : List.Forall₂ (List.Forall₂ (List.Forall₂ Element.IsCoord)) ps es) :
    (Body.polygons es).Denotes .multiPolygon (.multiPolygon ps) := by
  intro ctx
  rw [Body.eval]
  exact (Element.gives_polygons h ctx).bind (.pure _)

end Body

/-! ## Shapes -/

variable {tokens : List Token} {n k : Nat} {sub : Goal → TokenReader Expr} {next : Kind → Prop}
  {ms : List Mark} {P : Expr → Prop}

/-- The marks of items in parentheses. -/
def listMarks (items : List (List Mark)) : List Mark :=
  ⟨false, .symbol .lparen⟩ :: itemMarks true items

def lineMarks (cs : List Coord) : List Mark := listMarks (cs.map Coord.marks)

def ringsMarks (rs : List (List Coord)) : List Mark := listMarks (rs.map lineMarks)

/-- The list is not empty, and all its items are as told. -/
def Full {α : Type} (p : α → Prop) (xs : List α) : Prop := xs ≠ [] ∧ ∀ x ∈ xs, p x

theorem coordMarks_cons (c : Coord) : ∃ k ks, c.marks = k :: ks ∧ k.kind ≠ .symbol .rparen := by
  unfold Coord.marks numberMarks
  split
  · exact ⟨_, _, rfl, nofun⟩
  · exact ⟨_, _, rfl, nofun⟩

theorem takes_line {cs : List Coord} (hcs : Full Coord.IsFinite cs) (hk : n ≤ k) :
    Takes tokens n (ring k sub) (lineMarks cs) next (List.Forall₂ Element.IsCoord cs) :=
  takes_list hcs.1 (fun c hc => takes_element_pair (hcs.2 c hc)) (fun c _ => coordMarks_cons c) hk
    false false

theorem takes_rings {rs : List (List Coord)} (hrs : Full (Full Coord.IsFinite) rs) (hk : n ≤ k) :
    Takes tokens n (list k false (ring k sub)) (ringsMarks rs) next
      (List.Forall₂ (List.Forall₂ Element.IsCoord) rs) :=
  takes_list hrs.1 (fun cs hcs => takes_line (hrs.2 cs hcs) hk) (fun _ _ => ⟨_, _, rfl, nofun⟩) hk
    false false

theorem takes_polygons {ps : List (List (List Coord))}
    (hps : Full (Full (Full Coord.IsFinite)) ps) (hk : n ≤ k) :
    Takes tokens n (list k false (list k false (ring k sub))) (listMarks (ps.map ringsMarks)) next
      (List.Forall₂ (List.Forall₂ (List.Forall₂ Element.IsCoord)) ps) :=
  takes_list hps.1 (fun rs hrs => takes_rings (hps.2 rs hrs) hk) (fun _ _ => ⟨_, _, rfl, nofun⟩) hk
    false false

theorem takes_points {cs : List Coord} (hcs : Full Coord.IsFinite cs) :
    Takes tokens n (ring (n + 1) (run n)) (listMarks (cs.map pointMarks)) next
      (List.Forall₂ Element.IsCoord cs) :=
  takes_list hcs.1 (fun c hc => takes_element_point (hcs.2 c hc)) (fun _ _ => ⟨_, _, rfl, nofun⟩)
    (Nat.le_succ n) false false

/-- The name of a shape and what stands behind it, as marks. -/
def shapeMarks (kind : Geometry.Kind) (ms : List Mark) : List Mark := ⟨false, .geometry kind⟩ :: ms

/-- What stands for the list of a shape when there is nothing in it. -/
def emptyMarks : List Mark := [⟨false, .ident "EMPTY"⟩]

section

variable {kind : Geometry.Kind} {g : Geometry}

theorem takes_shape
    (hb : Takes tokens n (body (n + 1) (run n) kind) (⟨false, .symbol .lparen⟩ :: ms) next
      (Body.Denotes kind g)) :
    Takes tokens (n + 1) (geometry (n + 1) (run n) kind)
      (shapeMarks kind (⟨false, .symbol .lparen⟩ :: ms)) next (Expr.Denotes (.geometry g)) := by
  refine takes_position.bind_nil follows_any fun p _ => ?_
  refine (takes_next (.geometry kind) false).bind_cons fun _ _ => ?_
  refine TakesWith.bind_peek ?_
  exact hb.bind_pure fun b hb => takes_pure (Expr.denotes_geometry hb p)

theorem takes_emptyShape (hg : Geometry.empty? kind = some g) :
    Takes tokens (n + 1) (geometry (n + 1) (run n) kind) (shapeMarks kind emptyMarks) next
      (Expr.Denotes (.geometry g)) := by
  refine takes_position.bind_nil follows_any fun p _ => ?_
  refine (takes_next (.geometry kind) false).bind_cons fun _ _ => ?_
  refine TakesWith.bind_peek ?_
  have hname : ("EMPTY".toUpper == "EMPTY") = true := by decide +kernel
  simp only [hname, if_true]
  refine (takes_next (.ident "EMPTY") false).bind_pure fun _ _ => takes_pure ?_
  refine Expr.denotes_geometry (fun ctx => ?_) p
  rw [Body.eval, hg]
  exact .pure _

/-- The expression of a geometry is read from the name of its shape on. -/
theorem takes_expression_shape (hn : ∀ kind, next kind → Closes allLevels kind)
    (hg : ∀ n, Takes tokens (n + 1) (geometry (n + 1) (run n) kind) (shapeMarks kind ms) next P) :
    Takes tokens n (run n .expression) (shapeMarks kind ms) next P := by
  refine takes_run (fun n => takes_expression ?_ (by simp [shapeMarks, Follows])
    (by simp [shapeMarks, Follows]) hn) n
  refine takes_position.bind_nil follows_any fun _ _ => ?_
  exact TakesWith.bind_peek (hg n)

end

/-! ## Geometries -/

mutual

/-- The marks of a geometry. -/
def Geometry.marks : Geometry → List Mark
  | .point c => shapeMarks .point (pointMarks c)
  | .lineString cs =>
    shapeMarks .lineString (if cs.isEmpty then emptyMarks else lineMarks cs)
  | .polygon rs => shapeMarks .polygon (if rs.isEmpty then emptyMarks else ringsMarks rs)
  | .multiPoint cs =>
    shapeMarks .multiPoint (if cs.isEmpty then emptyMarks else listMarks (cs.map pointMarks))
  | .multiLineString ls =>
    shapeMarks .multiLineString (if ls.isEmpty then emptyMarks else ringsMarks ls)
  | .multiPolygon ps =>
    shapeMarks .multiPolygon (if ps.isEmpty then emptyMarks else listMarks (ps.map ringsMarks))
  | .collection gs =>
    shapeMarks .collection (if gs.isEmpty then emptyMarks else listMarks (marksMembers gs))

def Geometry.marksMembers : List Geometry → List (List Mark)
  | [] => []
  | g :: gs => g.marks :: marksMembers gs

end

theorem Geometry.marksMembers_eq (gs : List Geometry) : marksMembers gs = gs.map marks := by
  induction gs with
  | nil => rw [marksMembers, List.map_nil]
  | cons g gs ih => rw [marksMembers, List.map_cons, ih]

mutual

/-- Every coordinate is finite, and no ring, line or polygon inside the geometry is empty. The top
list may be, and so may collections at any depth. -/
def Geometry.Sound : Geometry → Prop
  | .point c => c.IsFinite
  | .lineString cs => ∀ c ∈ cs, c.IsFinite
  | .polygon rs => ∀ r ∈ rs, Full Coord.IsFinite r
  | .multiPoint cs => ∀ c ∈ cs, c.IsFinite
  | .multiLineString ls => ∀ l ∈ ls, Full Coord.IsFinite l
  | .multiPolygon ps => ∀ p ∈ ps, Full (Full Coord.IsFinite) p
  | .collection gs => soundMembers gs

def Geometry.soundMembers : List Geometry → Prop
  | [] => True
  | g :: gs => g.Sound ∧ soundMembers gs

end

variable {g : Geometry}

theorem Geometry.marks_cons (g : Geometry) : ∃ ks, g.marks = ⟨false, .geometry g.kind⟩ :: ks := by
  cases g <;> exact ⟨_, by rw [Geometry.marks]; rfl⟩

theorem takes_element_member
    (hg : Takes tokens n (run n .expression) g.marks Delimits (Expr.Denotes (.geometry g))) :
    Takes tokens n (element (n + 1) (run n)) g.marks Delimits (Element.IsMember g) := by
  obtain ⟨ks, hks⟩ := g.marks_cons
  rw [hks] at hg ⊢
  have hrefuses : Follows (·.refusesCoord = true) (⟨false, .geometry g.kind⟩ :: ks) Delimits := rfl
  refine (takes_element_value (declines_tryPair ((fails_coord hrefuses).bind _) rfl) hg).imp
    (fun _ h => h) ?_
  rintro e ⟨v, rfl, hv⟩
  exact Element.isMember_value hv

/-- A shape that is a list: its name with `EMPTY`, or with the list in parentheses. -/
theorem takes_listShape {α : Type} {kind : Geometry.Kind} {xs : List α} {items : List (List Mark)}
    (hempty : xs = [] → Geometry.empty? kind = some g)
    (hbody : xs ≠ [] → ∀ n, Takes tokens n (body (n + 1) (run n) kind) (listMarks items)
      (Closes allLevels) (Body.Denotes kind g)) :
    Takes tokens n (run n .expression)
      (shapeMarks kind (if xs.isEmpty then emptyMarks else listMarks items)) (Closes allLevels)
      (Expr.Denotes (.geometry g)) := by
  cases xs with
  | nil => exact takes_expression_shape (fun _ h => h) fun n => takes_emptyShape (hempty rfl)
  | cons x xs => exact takes_expression_shape (fun _ h => h) fun n => takes_shape (hbody nofun n)

mutual

/-- **A geometry is read from its marks**, with any number of unrollings that suffices for the
tokens. -/
theorem takes_geometry : ∀ (g : Geometry) (n : Nat), g.Sound →
    Takes tokens n (run n .expression) g.marks (Closes allLevels) (Expr.Denotes (.geometry g))
  | .point c, n, h => by
    rw [Geometry.Sound] at h
    rw [Geometry.marks]
    refine takes_expression_shape (fun _ h => h) fun n => takes_shape ?_
    refine (takes_expect (.symbol .lparen) false).bind_cons fun _ _ => ?_
    refine (takes_pair (takes_coord h.x) (takes_coord h.y)).bind (.inr rfl) ?_
    rintro ⟨x, y⟩ ⟨hx, hy⟩
    exact (takes_expect (.symbol .rparen) true).bind_pure fun _ _ =>
      takes_pure (Body.denotes_point hx hy)
  | .lineString cs, n, h => by
    rw [Geometry.Sound] at h
    rw [Geometry.marks]
    refine takes_listShape (fun h => h ▸ rfl) fun hne n => ?_
    exact (takes_line ⟨hne, h⟩ (Nat.le_succ n)).bind_pure fun es hes =>
      takes_pure (Body.denotes_lineString hes)
  | .polygon rs, n, h => by
    rw [Geometry.Sound] at h
    rw [Geometry.marks]
    refine takes_listShape (fun h => h ▸ rfl) fun hne n => ?_
    exact (takes_rings ⟨hne, h⟩ (Nat.le_succ n)).bind_pure fun es hes =>
      takes_pure (Body.denotes_polygon hes)
  | .multiPoint cs, n, h => by
    rw [Geometry.Sound] at h
    rw [Geometry.marks]
    refine takes_listShape (fun h => h ▸ rfl) fun hne n => ?_
    exact (takes_points ⟨hne, h⟩).bind_pure fun es hes =>
      takes_pure (Body.denotes_multiPoint hes)
  | .multiLineString ls, n, h => by
    rw [Geometry.Sound] at h
    rw [Geometry.marks]
    refine takes_listShape (fun h => h ▸ rfl) fun hne n => ?_
    exact (takes_rings ⟨hne, h⟩ (Nat.le_succ n)).bind_pure fun es hes =>
      takes_pure (Body.denotes_multiLineString hes)
  | .multiPolygon ps, n, h => by
    rw [Geometry.Sound] at h
    rw [Geometry.marks]
    refine takes_listShape (fun h => h ▸ rfl) fun hne n => ?_
    exact (takes_polygons ⟨hne, h⟩ (Nat.le_succ n)).bind_pure fun es hes =>
      takes_pure (Body.denotes_multiPolygon hes)
  | .collection gs, n, h => by
    rw [Geometry.Sound] at h
    rw [Geometry.marks, Geometry.marksMembers_eq]
    refine takes_listShape (fun h => h ▸ rfl) fun hne n => ?_
    have hmembers := takes_members gs n h
    have hlist : Takes tokens n (list (n + 1) true (element (n + 1) (run n)))
        (listMarks (gs.map Geometry.marks)) (Closes allLevels)
        (List.Forall₂ Element.IsMember gs) := by
      refine takes_list hne (fun g hg => takes_element_member ?_) (fun g _ => ?_) (Nat.le_succ n)
        false true
      · exact (hmembers g hg).before fun _ => closes_of_delimits
      · obtain ⟨ks, hks⟩ := g.marks_cons
        exact ⟨_, ks, hks, nofun⟩
    exact hlist.bind_pure fun es hes => takes_pure (Body.denotes_collection hes)

theorem takes_members : ∀ (gs : List Geometry) (n : Nat), Geometry.soundMembers gs → ∀ g ∈ gs,
    Takes tokens n (run n .expression) g.marks (Closes allLevels) (Expr.Denotes (.geometry g))
  | [], _, _, g, hg => nomatch hg
  | g₀ :: gs, n, h, g, hg => by
    rw [Geometry.soundMembers] at h
    rcases List.mem_cons.1 hg with hg | hg
    · exact hg ▸ takes_geometry g₀ n h.1
    · exact takes_members gs n h.2 g hg

end

end GeoScript
