import GeoScript.Proofs.Constructs
import GeoScript.Proofs.PairMemory
import GeoScript.Session

/-!
# Programs read back

**Theorem (`parse_script`).** Every program of the form that the grammar makes has a text that
parses to it, up to places: the text it is printed as.

**Roles.** What it means to be read back depends on where an expression stands (`ReadsIn`): values
are read as expressions, coordinates behind one another, items of sequences up to a semicolon,
bodies up to a brace or the end, branches in parentheses. The theorem follows by induction on the
tree for all roles at once (`Expr.readsIn`).
-/

namespace GeoScript

open Token (Kind)
open TokenReader Grammar

section

variable {tokens : List Token} {n : Nat} {next : Kind → Prop} {e : Expr}

/-! ## Items and sequences -/

/-- **An item reads back**, wherever it stands in front of a token that ends expressions. -/
structure ReadsItem (tokens : List Token) (e : Expr) : Prop where
  takes (n : Nat) : TakesWith NoMemory tokens (n + 1) (item (n + 1) (run n)) e.marks Stops e.Same
  fails (n : Nat) : FailsWith NoMemory tokens (n + 1) (pair (n + 1) (run n)) e.marks Stops
  starts : ∃ k ks, e.marks = ⟨false, k⟩ :: ks ∧ ¬ Stops k

theorem item_eq_expression {k : Nat} {sub : Goal → TokenReader Expr} {c : Cursor} {m : Memory}
    (h : ∀ name, c.kind = .ident name → c.secondKind? ≠ some (.symbol .equal)) :
    item k sub c m = expression k sub c m := by
  rw [item, bind_eq (show here c m = (.ok c c, m) from rfl)]
  cases hk : c.kind with
  | ident name =>
    have hne := h name hk
    cases hsecond : c.secondKind? with
    | none => rfl
    | some second =>
      rw [hsecond] at hne
      cases second with
      | symbol s => cases s <;> first | exact absurd rfl hne | rfl
      | _ => rfl
  | _ => rfl

/-- Values are items. -/
theorem ReadsBack.readsItem (h : ReadsBack tokens e) : ReadsItem tokens e := by
  obtain ⟨k, ks, hmarks, hk, hequal⟩ := h.starts
  refine ⟨fun n => ?_, h.fails, k, ks, hmarks, hk⟩
  intro previous ts u us i m hd hm hu hg hlt
  have hitem : item (n + 1) (run n) ⟨previous, ts ++ u :: us, i⟩ m =
      expression (n + 1) (run n) ⟨previous, ts ++ u :: us, i⟩ m := by
    refine item_eq_expression fun name hname => ?_
    rw [hmarks] at hm
    cases ts with
    | nil => cases hm
    | cons t ts =>
      -- Behind an identifier stands what follows it in the expression, or behind the expression.
      obtain ⟨v, vs, hv, hne⟩ := (hequal name (hm.1.kind.symm.trans hname)).exists_token hm.2 hu us
      rw [List.cons_append, hv]
      exact fun heq => hne (Option.some.inj heq)
  rw [hitem]
  exact h.takes (n + 1) previous ts u us i m hd hm hu hg hlt

/-- What is read where an identifier stands in front of an equals sign. -/
def declaration (k : Nat) (sub : Goal → TokenReader Expr) (name : String) : TokenReader Expr := do
  let p ← position
  let _ ← TokenReader.next
  let _ ← TokenReader.next
  return .decl name (← expression k sub) p

theorem item_of_equal {k : Nat} {sub : Goal → TokenReader Expr} {name : String} {c : Cursor}
    {m : Memory} (hk : c.kind = .ident name) (hsecond : c.secondKind? = some (.symbol .equal)) :
    item k sub c m = declaration k sub name c m := by
  rw [item, bind_eq (show here c m = (.ok c c, m) from rfl), declaration,
    bind_eq (show position c m = (.ok c.token.position c, m) from rfl)]
  simp only [hk, hsecond]

theorem readsItem_decl (h : ReadsBack tokens e) (name : String) (p : Position) :
    ReadsItem tokens (.decl name e p) := by
  refine ⟨fun n => ?_, fun n => ?_, ?_⟩ <;> rw [Expr.marks]
  · have hdeclaration : TakesWith NoMemory tokens (n + 1) (declaration (n + 1) (run n) name)
        (⟨false, .ident name⟩ :: ⟨false, .symbol .equal⟩ :: e.marks) Stops
        (Expr.decl name e p).Same := by
      refine takes_position.bind_nil follows_any fun q _ => ?_
      refine (takes_next (.ident name) false).bind_cons fun _ _ => ?_
      refine (takes_next (.symbol .equal) false).bind_cons fun _ _ => ?_
      refine ((h.takes (n + 1)).mono (by omega)).bind_pure fun a ha => takes_pure ?_
      simp only [Expr.Same, Expr.placed, ha]
    intro previous ts u us i m hd hm hu hg hlt
    match ts, hm with
    | t :: v :: ts, hm =>
      have hk : (Cursor.mk previous (t :: v :: ts ++ u :: us) i).kind = .ident name := hm.1.kind
      have hsecond : (Cursor.mk previous (t :: v :: ts ++ u :: us) i).secondKind? =
          some (.symbol .equal) :=
        congrArg some hm.2.1.kind
      rw [item_of_equal hk hsecond]
      exact hdeclaration previous (t :: v :: ts) u us i m hd hm hu hg hlt
  · -- The name alone is a coordinate, but no other one starts with the equals sign.
    have hname : TakesWith NoMemory tokens (n + 1) (coord (n + 1) (run n)) [⟨false, .ident name⟩]
        (· ≠ .symbol .lparen) (fun _ => True) := by
      refine TakesWith.congr coord_of_ident ?_
      refine takes_position.bind_nil follows_any fun q _ => ?_
      refine (takes_next (.ident name) false).bind_cons fun _ _ => ?_
      exact takes_callTail_none trivial fun _ hk => hk
    have hequal : FailsWith NoMemory tokens (n + 1) (coord (n + 1) (run n))
        (⟨false, .symbol .equal⟩ :: e.marks) Stops :=
      fails_coord rfl
    exact hname.bind_fails (by nofun) fun _ _ => (hequal.mono (Nat.sub_le _ _)).bind _
  · exact ⟨_, _, rfl, nofun⟩

/-- **A sequence reads back**, up to a token that ends sequences. -/
structure ReadsSequence (tokens : List Token) (e : Expr) : Prop where
  takes (n : Nat) : TakesWith NoMemory tokens n (run n .sequence) e.marks EndsSequence e.Same
  fails (n : Nat) : FailsWith NoMemory tokens (n + 1) (pair (n + 1) (run n)) e.marks EndsSequence

/-- An item is read where none of the tokens stands that end items. -/
theorem takes_sequenceItems_item {good : Memory → Prop} {k fuel : Nat}
    {sub : Goal → TokenReader Expr} {done : List Expr} {kind : Kind} {ms : List Mark}
    {Q : List Expr → Prop} (hkind : ¬ Stops kind)
    (h : TakesWith good tokens n (do
      let e ← item k sub
      if ← accept (.symbol .semicolon) then sequenceItems k sub fuel (e :: done)
      else return (e :: done).reverse) (⟨false, kind⟩ :: ms) next Q) :
    TakesWith good tokens n (sequenceItems k sub (fuel + 1) done) (⟨false, kind⟩ :: ms) next Q := by
  refine TakesWith.bind_peek ?_
  split
  · exact absurd .rparen hkind
  · exact absurd .rbrace hkind
  · exact absurd .eof hkind
  · refine (takes_accept_none (.symbol .semicolon)).bind_nil ?_ ?_
    · rintro rfl
      exact hkind .semicolon
    · rintro b rfl
      exact h

/-- **The items of a sequence are read one by one.** -/
theorem takes_sequenceItems {es done : List Expr} {most fuel : Nat}
    (hes : ∀ e ∈ es, ReadsItem tokens e) (hmost : most ≤ n + 1) (hfuel : most ≤ fuel) :
    TakesWith NoMemory tokens most (sequenceItems (n + 1) (run n) fuel done)
      (semicolonList (es.map Expr.marks)) EndsSequence
      (fun as => ∃ bs, as = done.reverse ++ bs ∧ List.Forall₂ Expr.Same es bs) := by
  induction es generalizing most fuel done with
  | nil =>
    refine takes_of_pos fun hpos => ?_
    obtain ⟨fuel, rfl⟩ := Nat.exists_eq_succ_of_ne_zero (n := fuel) (by omega)
    refine takes_peekKind.bind_nil (fun _ hk => hk) fun kind hkind => ?_
    cases hkind <;> exact takes_pure ⟨[], by simp, .nil⟩
  | cons e es ih =>
    refine takes_of_pos fun hpos => ?_
    obtain ⟨fuel, rfl⟩ := Nat.exists_eq_succ_of_ne_zero (n := fuel) (by omega)
    have he := hes e List.mem_cons_self
    obtain ⟨k, ks, hmarks, hk⟩ := he.starts
    have hitem := (he.takes n).mono hmost
    cases es with
    | nil =>
      rw [List.map_cons, List.map_nil, semicolonList, hmarks]
      refine takes_sequenceItems_item hk ?_
      rw [← hmarks]
      refine (hitem.before fun _ h => h.stops).bind_pure fun a ha => ?_
      refine (takes_accept_none (.symbol .semicolon)).bind_nil (by rintro _ ⟨⟩ <;> decide) ?_
      rintro b rfl
      exact takes_pure ⟨[a], by simp, .cons ha .nil⟩
    | cons e' es =>
      rw [List.map_cons, List.map_cons, semicolonList, hmarks, List.cons_append]
      · refine takes_sequenceItems_item hk ?_
        rw [← List.cons_append, ← hmarks]
        refine hitem.bind Stops.semicolon fun a ha => ?_
        refine (takes_accept (.symbol .semicolon) false).bind_cons ?_
        rintro b rfl
        -- The semicolon has been passed, so there is one token less and one unrolling less.
        refine (ih (fun e he => hes e (List.mem_cons_of_mem _ he)) (by omega) (by omega)).imp
          (fun _ h => h) ?_
        rintro as ⟨bs, rfl, hbs⟩
        exact ⟨a :: bs, by simp, .cons ha hbs⟩
      · nofun

theorem readsSequence_seq {es : List Expr} (hes : ∀ e ∈ es, ReadsItem tokens e) (p : Position) :
    ReadsSequence tokens (.seq es p) := by
  refine ⟨fun n => takes_run (fun n => ?_) n, fun n => ?_⟩ <;> rw [Expr.marks, Expr.marksAll_eq]
  · refine takes_position.bind_nil follows_any fun _ _ => ?_
    refine (takes_sequenceItems hes (Nat.le_refl _) (Nat.le_refl _)).bind_pure ?_
    rintro as ⟨bs, rfl, hbs⟩
    refine takes_pure ?_
    simp only [Expr.Same, Expr.placed, Expr.placedAll_eq]
    exact congrArg (Expr.seq · .start) (map_eq_of_forall₂ hbs)
  · -- No pair stands where the first item does, and the items behind it change nothing.
    match es, hes with
    | [], _ => exact (fails_coord fun _ hk => hk.stops.refusesCoord).bind _
    | [e], hes =>
      have hends : Follows Stops [] EndsSequence := fun _ hk => hk.stops
      have h := ((hes e List.mem_cons_self).fails n).append hends
      rwa [List.append_nil] at h
    | e :: e' :: es, hes => exact ((hes e List.mem_cons_self).fails n).append Stops.semicolon

/-! ## Functions and choices -/

section

variable {body : Expr} {args : List Expr}

theorem takes_function (hbody : ReadsSequence tokens body) (params : List String) (p : Position) :
    TakesWith NoMemory tokens (n + 1) (function (n + 1) (run n))
      (Expr.function params body p).marks next (Expr.function params body p).Same := by
  rw [Expr.marks]
  refine takes_position.bind_nil follows_any fun _ _ => ?_
  refine (takes_expect (.word .function) false).bind_cons fun _ _ => ?_
  refine (takes_expect (.symbol .lparen) false).bind_cons fun _ _ => ?_
  have hparams : TakesWith NoMemory tokens (n + 1) (Grammar.params (n + 1))
      (commaList (params.map nameMarks)) (fun _ => True) (List.Forall₂ (fun a b => b = a) params) :=
    TakesWith.bind_peek <| takes_listOrNone (fun name _ => takes_ident name false)
      (fun _ _ => ⟨_, _, rfl, nofun⟩) (Nat.le_refl _) false
  refine (hparams.mono (by omega)).bind follows_any fun names hnames => ?_
  refine (takes_expect (.symbol .arrow) false).bind_cons fun _ _ => ?_
  refine (takes_accept (.symbol .lbrace) false).bind_cons ?_
  rintro b rfl
  refine ((hbody.takes n).mono (by omega)).bind EndsSequence.rbrace fun a ha => ?_
  refine (takes_expect (.symbol .rbrace) false).bind_cons fun _ _ => ?_
  refine (takes_expect (.symbol .rparen) false).bind_pure fun _ _ => takes_pure ?_
  obtain rfl : names = params := by simpa using map_eq_of_forall₂ (f := id) hnames
  simp only [Expr.Same, Expr.placed, ha]

/-- **A function reads back**, alone or with arguments. -/
theorem readsBack_functionTail (hbody : ReadsSequence tokens body) {params : List String}
    {p : Position} {ms : List Mark} (hmarks : e.marks = (Expr.function params body p).marks ++ ms)
    (htail : ∀ n f, (Expr.function params body p).Same f →
      TakesWith NoMemory tokens n (callTail (n + 1) (run n) f) ms Stops e.Same) :
    ReadsBack tokens e := by
  obtain ⟨ks, hks⟩ : ∃ ks, (Expr.function params body p).marks = ⟨false, .word .function⟩ :: ks :=
    ⟨_, by rw [Expr.marks]⟩
  rw [hks, List.cons_append] at hmarks
  refine readsBack_of_announces (.word .function) hmarks fun n => ?_
  refine takes_position.bind_nil follows_any fun _ _ => ?_
  refine TakesWith.bind_peek ?_
  rw [← List.cons_append, ← hks]
  refine (takes_function hbody params p).bind follows_any fun f hf => ?_
  refine (htail n f hf).mono ?_
  rw [hks, List.length_cons]
  omega

theorem readsBack_function (hbody : ReadsSequence tokens body) (params : List String)
    (p : Position) : ReadsBack tokens (.function params body p) :=
  readsBack_functionTail hbody (List.append_nil _).symm fun _ _ hf =>
    takes_callTail_none hf fun _ hk => hk.ne_lparen

theorem readsBack_callFunction (hbody : ReadsSequence tokens body) (params : List String)
    (p : Position) (hargs : ∀ a ∈ args, ReadsBack tokens a) :
    ReadsBack tokens (.call (.function params body p) args) :=
  readsBack_functionTail hbody (by conv_lhs => rw [Expr.marks, Expr.marksAll_eq]) fun _ _ hf =>
    takes_callTail hf hargs

end

/-- A branch is read in its parentheses, whatever follows. -/
def ReadsBranch (tokens : List Token) (e : Expr) : Prop :=
  ∀ n, TakesWith NoMemory tokens (n + 1) (branch (n + 1) (run n)) (branchMarks e e.marks)
    (fun _ => True) e.Same

/-- A coordinate is read, whatever follows. -/
def ReadsCoord (tokens : List Token) (e : Expr) : Prop :=
  ∀ n, TakesWith NoMemory tokens (n + 1) (coord (n + 1) (run n)) (coordinateMarks e e.marks)
    (fun _ => True) e.Same

theorem readsBranch_seq {es : List Expr} {p : Position} (h : ReadsSequence tokens (.seq es p)) :
    ReadsBranch tokens (.seq es p) := by
  intro n
  refine takes_position.bind_nil follows_any fun _ _ => ?_
  refine (declines_tryParenthesizedPair (h.fails n) .rparen).bind ?_
  refine (takes_expect (.symbol .lparen) false).bind_cons fun _ _ => ?_
  refine (h.takes n).bind EndsSequence.rparen fun a ha => ?_
  exact (takes_expect (.symbol .rparen) false).bind_pure fun _ _ => takes_pure ha

theorem takes_coordinates {x y : Expr} (hx : ReadsCoord tokens x) (hy : ReadsCoord tokens y) :
    TakesWith NoMemory tokens (n + 1) (pair (n + 1) (run n))
      (coordinateMarks x x.marks ++ coordinateMarks y y.marks) Delimits
      (fun xy => x.Same xy.1 ∧ y.Same xy.2) :=
  takes_pair (hx n) (hy n)

theorem readsBranch_point {x y : Expr} (hx : ReadsCoord tokens x) (hy : ReadsCoord tokens y)
    (p : Position) : ReadsBranch tokens (.geometry .point (.point x y) p) := by
  intro n
  rw [branchMarks, Expr.marks, List.tail_cons, Body.marks]
  · refine takes_position.bind_nil follows_any fun _ _ => ?_
    refine (takes_tryParenthesizedPair (takes_tryPair_plain (takes_coordinates hx hy))).bind_pure ?_
    rintro r ⟨⟨a, b⟩, rfl, ha, hb⟩
    refine takes_pure ?_
    simp only [Expr.Same, Expr.placed, Body.placed, ha, hb]
  · nofun

theorem readsBack_cond {condition thenBranch elseBranch : Expr}
    (hcondition : ReadsBack tokens condition) (hthen : ReadsBranch tokens thenBranch)
    (helse : ReadsBranch tokens elseBranch) (p : Position) :
    ReadsBack tokens (.cond condition thenBranch elseBranch p) := by
  refine readsBack_of_announces (.word .ifWord) (by rw [Expr.marks]) fun n => ?_
  refine takes_position.bind_nil follows_any fun _ _ => ?_
  refine TakesWith.bind_peek ?_
  refine takes_position.bind_nil follows_any fun _ _ => ?_
  refine (takes_expect (.word .ifWord) false).bind_cons fun _ _ => ?_
  have htest : TakesWith NoMemory tokens n (run n .expression) (parens condition.marks)
      (Closes allLevels) condition.Same :=
    takes_run (fun _ => hcondition.takes_levels allLevels) n
  refine htest.bind ⟨by decide, by decide, by decide⟩ fun a ha => ?_
  refine (takes_expect (.word .thenWord) false).bind_cons fun _ _ => ?_
  refine ((hthen n).mono (by omega)).bind follows_any fun b hb => ?_
  refine (takes_expect (.word .elseWord) false).bind_cons fun _ _ => ?_
  refine (((helse n).mono (by omega)).before fun _ _ => trivial).bind_pure fun c hc => ?_
  refine takes_pure ?_
  simp only [Expr.Same, Expr.placed, ha, hb, hc]

/-! ## Shapes -/

/-- **An entry of a coordinate list reads back.** -/
structure ReadsElement (tokens : List Token) (e : Element) : Prop where
  takes (n : Nat) : TakesWith NoMemory tokens n (element (n + 1) (run n)) e.marks Delimits e.Same
  starts : ∃ k ks, e.marks = k :: ks ∧ k.kind ≠ .symbol .rparen

theorem coordinateMarks_cons (e : Expr) (ms : List Mark) :
    ∃ k ks, coordinateMarks e e.marks ++ ms = k :: ks ∧ k.kind ≠ .symbol .rparen := by
  unfold coordinateMarks
  split
  · rw [Expr.marks, numberMarks]
    split
    · exact ⟨_, _, rfl, by simp⟩
    · exact ⟨_, _, rfl, by simp⟩
  · exact ⟨_, _, rfl, by simp⟩

theorem readsElement_pair {x y : Expr} (hx : ReadsCoord tokens x) (hy : ReadsCoord tokens y) :
    ReadsElement tokens (.pair x y) := by
  refine ⟨fun n => ?_, ?_⟩ <;> rw [Element.marks]
  · have htry := takes_tryPair_plain (takes_coordinates (n := n) hx hy)
    refine (htry.mono (Nat.le_succ n)).bind_pure ?_
    rintro r ⟨⟨a, b⟩, rfl, ha, hb⟩
    refine takes_pure ?_
    simp only [Element.Same, Element.placed, ha, hb]
  · exact coordinateMarks_cons x _

/-- An expression in an entry is not taken for a coordinate: no second one follows it. -/
theorem readsElement_value (h : ReadsBack tokens e) : ReadsElement tokens (.value e) := by
  refine ⟨fun n => ?_, ?_⟩ <;> rw [Element.marks]
  · have hfails : FailsWith NoMemory tokens (n + 1) (pair (n + 1) (run n)) (parens e.marks) Stops :=
      fails_pair_of_coord h.takes_coord
    have hgroup : TakesWith NoMemory tokens n (run n .expression) (parens e.marks) Stops e.Same :=
      takes_run (fun _ => (h.takes_levels allLevels).before fun _ hk => hk.closes) n
    have htry := declines_tryPair_plain (hfails.mono (Nat.le_succ n))
    refine (takes_element_value htry hgroup).imp (fun _ => stops_of_delimits) ?_
    rintro _ ⟨a, rfl, ha⟩
    simp only [Element.Same, Element.placed, ha]
  · exact ⟨_, _, rfl, nofun⟩

/-- **What stands behind the name of a shape reads back.** -/
def ReadsBody (tokens : List Token) (kind : Geometry.Kind) (b : Body) : Prop :=
  b = .empty ∨ (∃ ms, b.marks = ⟨false, .symbol .lparen⟩ :: ms) ∧
    ∀ n, TakesWith NoMemory tokens n (Grammar.body (n + 1) (run n) kind) b.marks (fun _ => True)
      b.Same

theorem readsBody_point {x y : Expr} (hx : ReadsCoord tokens x) (hy : ReadsCoord tokens y) :
    ReadsBody tokens .point (.point x y) := by
  refine .inr ⟨⟨_, by rw [Body.marks, parens]⟩, fun n => ?_⟩
  rw [Body.marks]
  refine (takes_expect (.symbol .lparen) false).bind_cons fun _ _ => ?_
  refine ((takes_coordinates hx hy).mono (by omega)).bind (.inr rfl) ?_
  rintro ⟨a, b⟩ ⟨ha, hb⟩
  refine (takes_expect (.symbol .rparen) false).bind_pure fun _ _ => takes_pure ?_
  simp only [Body.Same, Body.placed, ha, hb]

section

variable {es : List Element}

theorem takes_ring (hne : es ≠ []) (hes : ∀ e ∈ es, ReadsElement tokens e) :
    TakesWith NoMemory tokens n (ring (n + 1) (run n)) (ringMarks es) next
      (List.Forall₂ Element.Same es) :=
  takes_list hne (fun e he => (hes e he).takes n) (fun e he => (hes e he).starts) (Nat.le_succ n)
    false false

theorem readsBody_elements {kind : Geometry.Kind} (hes : ∀ e ∈ es, ReadsElement tokens e)
    (hkind : kind = .collection ∨ (kind = .lineString ∨ kind = .multiPoint) ∧ es ≠ []) :
    ReadsBody tokens kind (.elements es) := by
  refine .inr ⟨⟨_, by rw [Body.marks, commaList]⟩, fun n => ?_⟩
  rw [Body.marks, Element.marksAll_eq]
  have hsame : ∀ as, List.Forall₂ Element.Same es as → (Body.elements es).Same (.elements as) := by
    intro as has
    simp only [Body.Same, Body.placed, Element.placedAll_eq, map_eq_of_forall₂ has]
  rcases hkind with rfl | ⟨rfl | rfl, hne⟩
  · exact (takes_listOrNone (fun e he => (hes e he).takes n) (fun e he => (hes e he).starts)
      (Nat.le_succ n) false).bind_pure fun as has => takes_pure (hsame as has)
  · exact (takes_ring hne hes).bind_pure fun as has => takes_pure (hsame as has)
  · exact (takes_ring hne hes).bind_pure fun as has => takes_pure (hsame as has)

end

section

variable {rs : List (List Element)}

theorem takes_ringList (hne : rs ≠ []) (hrs : ∀ r ∈ rs, r ≠ [] ∧ ∀ e ∈ r, ReadsElement tokens e) :
    TakesWith NoMemory tokens n (list (n + 1) false (ring (n + 1) (run n)))
      (commaList (rs.map ringMarks)) next (List.Forall₂ (List.Forall₂ Element.Same) rs) :=
  takes_list hne (fun r hr => takes_ring (hrs r hr).1 (hrs r hr).2)
    (fun _ _ => ⟨_, _, rfl, nofun⟩) (Nat.le_succ n) false false

theorem map_eq_of_rings {as : List (List Element)}
    (h : List.Forall₂ (List.Forall₂ Element.Same) rs as) :
    as.map (List.map (Element.placed fun _ => .start)) =
      rs.map (List.map (Element.placed fun _ => .start)) :=
  map_eq_of_forall₂ (h.imp fun _ _ hr => map_eq_of_forall₂ hr)

theorem readsBody_rings {kind : Geometry.Kind} (hkind : kind = .polygon ∨ kind = .multiLineString)
    (hne : rs ≠ []) (hrs : ∀ r ∈ rs, r ≠ [] ∧ ∀ e ∈ r, ReadsElement tokens e) :
    ReadsBody tokens kind (.rings rs) := by
  refine .inr ⟨⟨_, by rw [Body.marks, commaList]⟩, fun n => ?_⟩
  rw [Body.marks, Element.marksRings_eq]
  have hsame : ∀ as, List.Forall₂ (List.Forall₂ Element.Same) rs as →
      (Body.rings rs).Same (.rings as) := by
    intro as has
    simp only [Body.Same, Body.placed, Element.placedRings_eq, map_eq_of_rings has]
  rcases hkind with rfl | rfl
  · exact (takes_ringList hne hrs).bind_pure fun as has => takes_pure (hsame as has)
  · exact (takes_ringList hne hrs).bind_pure fun as has => takes_pure (hsame as has)

end

theorem readsBody_polygons {ps : List (List (List Element))} (hne : ps ≠ [])
    (hps : ∀ p ∈ ps, p ≠ [] ∧ ∀ r ∈ p, r ≠ [] ∧ ∀ e ∈ r, ReadsElement tokens e) :
    ReadsBody tokens .multiPolygon (.polygons ps) := by
  refine .inr ⟨⟨_, by rw [Body.marks, commaList]⟩, fun n => ?_⟩
  rw [Body.marks, Element.marksPolygons_eq]
  have hlist : TakesWith NoMemory tokens n
      (list (n + 1) false (list (n + 1) false (ring (n + 1) (run n))))
      (commaList (ps.map fun p => commaList (p.map ringMarks))) (fun _ => True)
      (List.Forall₂ (List.Forall₂ (List.Forall₂ Element.Same)) ps) :=
    takes_list hne (fun p hp => takes_ringList (hps p hp).1 (hps p hp).2)
      (fun _ _ => ⟨_, _, rfl, by simp⟩) (Nat.le_succ n) false false
  refine hlist.bind_pure fun as has => takes_pure ?_
  have hmap := map_eq_of_forall₂ (has.imp fun _ _ hp => map_eq_of_rings hp)
  simp only [Body.Same, Body.placed, Element.placedPolygons_eq, hmap]

theorem readsBack_typeTag (kind : Geometry.Kind) (p : Position) :
    ReadsBack tokens (.typeTag kind p) := by
  refine readsBack_of_announces (.geometry kind) (by rw [Expr.marks]) fun n => ?_
  refine takes_position.bind_nil follows_any fun _ _ => ?_
  refine TakesWith.bind_peek ?_
  refine takes_position.bind_nil follows_any fun q _ => ?_
  refine (takes_next (.geometry kind) false).bind_cons fun _ _ => ?_
  refine takes_peekKind.bind_nil (fun _ hk => hk) fun stop hstop => ?_
  have hsame : (Expr.typeTag kind p).Same (.typeTag kind q) := by
    simp only [Expr.Same, Expr.placed]
  cases hstop <;> exact takes_pure hsame

theorem readsBack_geometry {kind : Geometry.Kind} {b : Body} (h : ReadsBody tokens kind b)
    (p : Position) : ReadsBack tokens (.geometry kind b p) := by
  refine readsBack_of_announces (.geometry kind) (by rw [Expr.marks]) fun n => ?_
  refine takes_position.bind_nil follows_any fun _ _ => ?_
  refine TakesWith.bind_peek ?_
  refine takes_position.bind_nil follows_any fun q _ => ?_
  refine (takes_next (.geometry kind) false).bind_cons fun _ _ => ?_
  rcases h with rfl | ⟨⟨ms, hmarks⟩, hbody⟩
  · rw [Body.marks]
    refine TakesWith.bind_peek ?_
    have hname : ("EMPTY".toUpper == "EMPTY") = true := by decide +kernel
    simp only [hname, if_true]
    refine (takes_next (.ident "EMPTY") false).bind_pure fun _ _ => takes_pure ?_
    simp only [Expr.Same, Expr.placed]
  · rw [hmarks]
    refine TakesWith.bind_peek ?_
    rw [← hmarks]
    refine ((hbody n).before fun _ _ => trivial).bind_pure fun a ha => takes_pure ?_
    simp only [Expr.Same, Expr.placed, ha]

/-! ## All roles -/

/-- **An expression reads back in its role.** -/
def ReadsIn (tokens : List Token) : Role → Expr → Prop
  | .operand => ReadsBack tokens
  | .coordinate => ReadsCoord tokens
  | .item => ReadsItem tokens
  | .body => ReadsSequence tokens
  | .branch => ReadsBranch tokens

/-- Values read back wherever they may stand. Only a number is not put in parentheses where it is a
coordinate. -/
theorem ReadsBack.readsIn (h : ReadsBack tokens e) {role : Role} (hrole : role.takesValue = true)
    (hcoord : role = .coordinate → coordinateMarks e e.marks = parens e.marks) :
    ReadsIn tokens role e := by
  cases role with
  | operand => exact h
  | coordinate =>
    intro n
    rw [hcoord rfl]
    exact h.takes_coord
  | item => exact h.readsItem
  | body => cases hrole
  | branch => cases hrole

theorem readsIn_number {x : Float} {role : Role} (p : Position)
    (h : (Expr.number x p).fits .written role = true) : ReadsIn tokens role (.number x p) := by
  simp only [Expr.fits, Bool.and_eq_true] at h
  obtain ⟨hrole, hx⟩ := h
  by_cases hcoord : role = .coordinate
  · subst hcoord
    have hfinite : x.isFinite = true := hx
    intro n
    rw [coordinateMarks, Expr.marks]
    refine (takes_coord_number hfinite).imp (fun _ h => h) ?_
    rintro _ ⟨q, rfl⟩
    simp only [Expr.Same, Expr.placed]
  · rw [if_neg hcoord] at hx
    simp only [Vocabulary.written, Bool.and_eq_true, Bool.not_eq_true'] at hx
    exact (readsBack_number hx.1 hx.2 p).readsIn hrole fun h => absurd h hcoord

mutual

/-- **Every tree that fits reads back**, in every role. -/
theorem Expr.readsIn :
    ∀ (e : Expr) (role : Role), e.fits .written role = true → ReadsIn tokens role e
  | .number _ p, _, h => readsIn_number p h
  | .bool b p, _, h => by
    rw [Expr.fits] at h
    exact (readsBack_bool b p).readsIn h fun _ => rfl
  | .ident name p, _, h => by
    simp only [Expr.fits, Bool.and_eq_true] at h
    exact (readsBack_ident name p).readsIn h.1 fun _ => rfl
  | .typeTag kind p, _, h => by
    rw [Expr.fits] at h
    exact (readsBack_typeTag kind p).readsIn h fun _ => rfl
  | .decl name value p, role, h => by
    simp only [Expr.fits, Bool.and_eq_true, decide_eq_true_eq] at h
    obtain ⟨⟨rfl, -⟩, hvalue⟩ := h
    exact readsItem_decl (Expr.readsIn value .operand hvalue) name p
  | .seq items p, role, h => by
    simp only [Expr.fits, Bool.and_eq_true] at h
    have hseq : ReadsSequence tokens (.seq items p) :=
      readsSequence_seq (Expr.readsInAll items .item h.2) p
    cases role with
    | body => exact hseq
    | branch => exact readsBranch_seq hseq
    | _ => cases h.1
  | .geometry kind body p, role, h => by
    simp only [Expr.fits, Bool.and_eq_true, Bool.or_eq_true, decide_eq_true_eq] at h
    obtain ⟨hvalue | ⟨rfl, hpair⟩, hbody⟩ := h
    · exact (readsBack_geometry (Body.reads body kind hbody) p).readsIn hvalue fun _ => rfl
    · exact Body.readsBranch body kind p hpair hbody
  | .function params body p, _, h => by
    simp only [Expr.fits, Bool.and_eq_true] at h
    exact (readsBack_function (Expr.readsIn body .body h.2) params p).readsIn h.1.1 fun _ => rfl
  | .call (.ident name p) args, _, h => by
    simp only [Expr.fits, Bool.and_eq_true] at h
    exact (readsBack_callIdent name p (Expr.readsInAll args .operand h.2)).readsIn h.1.1.1
      fun _ => rfl
  | .call (.function params body p) args, _, h => by
    simp only [Expr.fits, Bool.and_eq_true] at h
    have hbody := Expr.readsIn body .body h.1.2.2
    exact (readsBack_callFunction hbody params p (Expr.readsInAll args .operand h.2)).readsIn
      h.1.1.1 fun _ => rfl
  | .access target property args, _, h => by
    simp only [Expr.fits, Bool.and_eq_true] at h
    have htarget := Expr.readsIn target .operand h.1.1.2
    exact (readsBack_access htarget property (Expr.readsInAll args .operand h.2)).readsIn h.1.1.1
      fun _ => rfl
  | .binary op left right, _, h => by
    simp only [Expr.fits, Bool.and_eq_true] at h
    have hleft := Expr.readsIn left .operand h.1.2
    exact (readsBack_binary hleft (Expr.readsIn right .operand h.2) op).readsIn h.1.1 fun _ => rfl
  | .generate count body p, _, h => by
    simp only [Expr.fits, Bool.and_eq_true] at h
    have hcount := Expr.readsIn count .operand h.1.2
    exact (readsBack_generate hcount (Expr.readsIn body .operand h.2) p).readsIn h.1.1 fun _ => rfl
  | .cond condition thenBranch elseBranch p, _, h => by
    simp only [Expr.fits, Bool.and_eq_true] at h
    have hcondition := Expr.readsIn condition .operand h.1.1.2
    have hthen := Expr.readsIn thenBranch .branch h.1.2
    have helse := Expr.readsIn elseBranch .branch h.2
    exact (readsBack_cond hcondition hthen helse p).readsIn h.1.1.1 fun _ => rfl
  | .not operand p, _, h => by
    simp only [Expr.fits, Bool.and_eq_true] at h
    exact (readsBack_not (Expr.readsIn operand .operand h.2) p).readsIn h.1 fun _ => rfl
  | .neg operand p, _, h => by
    simp only [Expr.fits, Bool.and_eq_true] at h
    exact (readsBack_neg (Expr.readsIn operand .operand h.2) p).readsIn h.1 fun _ => rfl

theorem Expr.readsInAll : ∀ (es : List Expr) (role : Role),
    Expr.fitAll .written role es = true → ∀ e ∈ es, ReadsIn tokens role e
  | [], _, _ => nofun
  | e :: es, role, h => by
    simp only [Expr.fitAll, Bool.and_eq_true] at h
    rw [List.forall_mem_cons]
    exact ⟨Expr.readsIn e role h.1, Expr.readsInAll es role h.2⟩

theorem Element.reads : ∀ e : Element, e.fits .written = true → ReadsElement tokens e
  | .pair x y, h => by
    simp only [Element.fits, Bool.and_eq_true] at h
    exact readsElement_pair (Expr.readsIn x .coordinate h.1) (Expr.readsIn y .coordinate h.2)
  | .value e, h => by
    rw [Element.fits] at h
    exact readsElement_value (Expr.readsIn e .operand h)

theorem Element.readsAll : ∀ es : List Element, Element.fitAll .written es = true →
    ∀ e ∈ es, ReadsElement tokens e
  | [], _ => nofun
  | e :: es, h => by
    simp only [Element.fitAll, Bool.and_eq_true] at h
    rw [List.forall_mem_cons]
    exact ⟨Element.reads e h.1, Element.readsAll es h.2⟩

theorem Element.readsRings : ∀ rs : List (List Element), Element.fitRings .written rs = true →
    ∀ r ∈ rs, r ≠ [] ∧ ∀ e ∈ r, ReadsElement tokens e
  | [], _ => nofun
  | r :: rs, h => by
    simp only [Element.fitRings, Bool.and_eq_true] at h
    rw [List.forall_mem_cons]
    exact ⟨⟨by simpa using h.1.1, Element.readsAll r h.1.2⟩, Element.readsRings rs h.2⟩

theorem Element.readsPolygons : ∀ ps : List (List (List Element)),
    Element.fitPolygons .written ps = true →
    ∀ p ∈ ps, p ≠ [] ∧ ∀ r ∈ p, r ≠ [] ∧ ∀ e ∈ r, ReadsElement tokens e
  | [], _ => nofun
  | p :: ps, h => by
    simp only [Element.fitPolygons, Bool.and_eq_true] at h
    rw [List.forall_mem_cons]
    exact ⟨⟨by simpa using h.1.1, Element.readsRings p h.1.2⟩, Element.readsPolygons ps h.2⟩

theorem Body.reads : ∀ (b : Body) (kind : Geometry.Kind), b.fits .written kind = true →
    ReadsBody tokens kind b
  | .empty, _, _ => .inl rfl
  | .point x y, kind, h => by
    simp only [Body.fits, Bool.and_eq_true, decide_eq_true_eq] at h
    obtain ⟨⟨rfl, hx⟩, hy⟩ := h
    exact readsBody_point (Expr.readsIn x .coordinate hx) (Expr.readsIn y .coordinate hy)
  | .elements items, kind, h => by
    simp only [Body.fits, Bool.and_eq_true] at h
    exact readsBody_elements (Element.readsAll items h.2) (by simpa using h.1)
  | .rings rings, kind, h => by
    simp only [Body.fits, Bool.and_eq_true] at h
    exact readsBody_rings (by simpa using h.1.1) (by simpa using h.1.2)
      (Element.readsRings rings h.2)
  | .polygons polygons, kind, h => by
    simp only [Body.fits, Bool.and_eq_true, decide_eq_true_eq] at h
    obtain ⟨⟨rfl, hne⟩, hpolygons⟩ := h
    exact readsBody_polygons (by simpa using hne) (Element.readsPolygons polygons hpolygons)

theorem Body.readsBranch : ∀ (b : Body) (kind : Geometry.Kind) (p : Position), b.isPair = true →
    b.fits .written kind = true → ReadsBranch tokens (.geometry kind b p)
  | .point x y, kind, p, _, h => by
    simp only [Body.fits, Bool.and_eq_true, decide_eq_true_eq] at h
    obtain ⟨⟨rfl, hx⟩, hy⟩ := h
    exact readsBranch_point (Expr.readsIn x .coordinate hx) (Expr.readsIn y .coordinate hy) p

end

end

/-! ## Programs -/

theorem takes_program_body {tokens : List Token} {e : Expr} (h : ReadsSequence tokens e) (n : Nat) :
    TakesWith NoMemory tokens n (program n) e.marks (· = .eof) e.Same := by
  have hsequence : TakesWith NoMemory tokens n (run n .sequence) e.marks (· = .eof) e.Same :=
    (h.takes n).before (by rintro _ rfl; exact .eof)
  refine hsequence.bind_pure fun a ha => ?_
  refine takes_peekKind.bind_nil (fun _ hk => hk) ?_
  rintro kind rfl
  exact takes_pure ha

/-- **Programs read back.** Scanning and parsing the text of a program gives this program, up to
places. -/
theorem parse_script {e : Expr} (h : e.fits .written .body = true) :
    ∃ e', parse e.script = .ok e' ∧ e'.unplaced = e.unplaced := by
  obtain ⟨ts, t, hscan, hmarked, ht⟩ := scan_script h
  have hend : EndMarked (ts ++ [t]) := ⟨t, List.getLast?_concat, ht⟩
  obtain ⟨a, m, hrun, -, ha⟩ := takes_program_body (Expr.readsIn e .body h)
    ((ts ++ [t]).length + 1) none ts t [] 0 none rfl hmarked ht rfl (by
      rw [List.length_append, List.length_nil, List.length_singleton]
      omega)
  refine ⟨a, ?_, ha⟩
  rw [parse, hscan]
  show Expr.parse (ts ++ [t]) = .ok a
  rw [parse_eq_parseWith_none hend, Expr.parseWith, Cursor.start, hrun]

/-- A program with most ways to stand in parentheses. -/
def manyParentheses : Expr :=
  let p : Position := .start
  .seq
    [.decl "f" (.function ["x", "y"]
        (.seq [.binary (.arith .pow) (.ident "x" p) (.number 2 p)] p) p) p,
      .cond (.binary (.compare .lt) (.access (.ident "q" p) "a" []) (.number 1.5 p))
        (.geometry .point (.point (.number (-1) p) (.ident "z" p)) p) (.seq [] p) p,
      .generate (.number 3 p) (.call (.ident "f" p) [.number 0 p, .typeTag .point p]) p] p

theorem parse_script_manyParentheses :
    manyParentheses.fits .written .body = true ∧
    manyParentheses.script = "f = Function ( ( x , y ) => \x7b ( x ) ^ ( 2 ) \x7d ) ; " ++
      "if ( ( ( q ) : a ( ) ) < ( 1.5 ) ) then ( -1 ( z ) ) else ( ) ; " ++
      "Generate ( 3 ) ( f ( 0 , POINT ) )" ∧
    ∃ e, parse manyParentheses.script = .ok e ∧ e.unplaced = manyParentheses.unplaced :=
  have hfits : manyParentheses.fits .written .body = true := by decide +kernel
  ⟨hfits, by decide +kernel, parse_script hfits⟩

end GeoScript
