import GeoScript.Geometry.Wkt
import GeoScript.Proofs.Confinement
import GeoScript.Proofs.Shapes
import GeoScript.Proofs.Spelling

/-!
# Well-known text reads back

**Spelling.** Marks spell a text if writing their tokens, with blanks as the marks demand, gives the
text, and every token is taken whole where it stands (`Spells`). Spelling is put together along the
text: a list is spelled by its items, a shape by its name and what stands behind it. So every
geometry is spelled by its marks (`spells_geometry`).

**Theorem (`evaluate_wkt`).** Evaluating the well-known text of a geometry gives the geometry, in
every scope of every heap. The text is scanned into tokens with the marks of the geometry, these are
read as one expression, and the value of that is the geometry.
-/

namespace GeoScript

open Token (Kind)
open TokenReader Grammar
open Lexer (Piece written lastKind ScansAll Ends)

/-! ## Spelling -/

/-- The blank in front of a token that does not have to touch the one before it. -/
def blank (previous : Option Kind) : List Char :=
  if previous.isSome && previous != some (.symbol .lparen) then [' '] else []

/-- The marks spell a text: it is what is written for them, whatever stands before, and their tokens
are taken whole, if a word or number that ends the text ends there. -/
structure Spells (ms : List Mark) (text : List Char) : Prop where
  writes : ∀ previous, written .compact previous (ms.map Mark.piece) = blank previous ++ text
  scans : ∀ rest, Ends rest → ScansAll .compact (ms.map Mark.piece) rest

section

variable {ms ns : List Mark} {text text' : List Char} {k : Kind}

theorem written_cons_false (ms : List Mark) (previous : Option Kind) :
    written .compact previous ((⟨false, k⟩ :: ms : List Mark).map Mark.piece) =
      blank previous ++ (k.source ++ written .compact (some k) (ms.map Mark.piece)) := by
  rw [List.map_cons, written, Piece.spaced, blank]
  simp only [Mark.piece, Bool.not_false, Bool.true_and, Lexer.Layout.compact]
  split <;> simp

theorem written_cons_true (ms : List Mark) (previous : Option Kind) :
    written .compact previous ((⟨true, k⟩ :: ms : List Mark).map Mark.piece) =
      k.source ++ written .compact (some k) (ms.map Mark.piece) := by
  rw [List.map_cons, written, Piece.spaced]
  simp [Mark.piece]

/-- A token that is not a parenthesis, a blank, and what follows. -/
theorem ends_blank {previous : Kind} (hp : previous ≠ .symbol .lparen) (cs : List Char) :
    Ends (blank (some previous) ++ cs) := by
  have hblank : blank (some previous) = [' '] := by simp [blank, hp]
  rw [hblank]
  intro c hc
  exact .inl (Option.some.inj hc).symm

theorem spells_single (hk : ∀ rest, Ends rest → (Mark.piece ⟨false, k⟩).Scans rest) :
    Spells [⟨false, k⟩] k.source where
  writes previous := by
    rw [written_cons_false, List.map_nil, written, List.append_nil]
  scans rest hr := ⟨hk rest hr, trivial⟩

/-- Two texts with a blank between them. -/
theorem Spells.append (h : Spells ms text) (h' : Spells ns text')
    (hlast : ∀ previous, lastKind previous (ms.map Mark.piece) = some k)
    (hk : k ≠ .symbol .lparen) : Spells (ms ++ ns) (text ++ ' ' :: text') where
  writes previous := by
    have hblank : blank (some k) = [' '] := by simp [blank, hk]
    rw [List.map_append, Lexer.written_append, hlast, h.writes, h'.writes, hblank]
    simp
  scans rest hr := by
    rw [List.map_append]
    refine Lexer.scansAll_append none ?_ (h'.scans rest hr)
    rw [hlast, h'.writes, List.append_assoc]
    exact h.scans _ (ends_blank hk _)

/-! ### Words and numbers -/

theorem spells_number {x : Float} (hx : x.isFinite = true) :
    Spells (numberMarks x) (Decimal.text x).toList := by
  have htext := Decimal.text_eq hx
  unfold numberMarks
  cases hsign : Decimal.isSigned x with
  | false =>
    rw [hsign] at htext
    rw [htext]
    exact spells_single fun rest hr => scans_size hx false hr
  | true =>
    rw [hsign] at htext
    rw [htext]
    constructor
    · intro previous
      rw [if_pos rfl, written_cons_false, written_cons_true, List.map_nil, written, List.append_nil]
      rfl
    · intro rest hr
      exact ⟨Lexer.scans_symbol (by simp) false _, scans_size hx true hr, trivial⟩

theorem lastKind_numberMarks (x : Float) (previous : Option Kind) :
    lastKind previous ((numberMarks x).map Mark.piece) = some (.number x.abs) := by
  unfold numberMarks
  split <;> rfl

theorem spells_coord {c : Coord} (hc : c.IsFinite) : Spells c.marks c.wkt.toList := by
  have h := (spells_number hc.x).append (spells_number hc.y) (lastKind_numberMarks c.x) nofun
  rw [Coord.wkt, String.toList_append, String.toList_append, List.append_assoc]
  exact h

theorem spells_shape (kind : Geometry.Kind) {body : String} (h : Spells ms body.toList) :
    Spells (shapeMarks kind ms) (Geometry.tagged kind body).toList := by
  have hkeyword : Spells [⟨false, .geometry kind⟩] kind.keyword.toList :=
    spells_single fun _ => scans_keyword kind false
  have happend := hkeyword.append h (fun _ => rfl) nofun
  rw [Geometry.tagged, String.toList_append, String.toList_append, List.append_assoc]
  exact happend

theorem spells_empty : Spells emptyMarks "EMPTY".toList := by
  refine spells_single fun rest hr => ?_
  have hword : Kind.ofWord (String.ofList "EMPTY".toList) = .ident "EMPTY" := by decide +kernel
  have hletters : "EMPTY".toList.all Lexer.isLetter = true := by decide +kernel
  have hscans : (⟨false, .ofWord (String.ofList "EMPTY".toList), "EMPTY".toList⟩ :
      Piece).Scans rest :=
    Lexer.scans_word (by decide) (List.all_eq_true.1 hletters) hr false
  rw [hword] at hscans
  exact hscans

/-! ### Lists -/

/-- A comma or a closing parenthesis right behind a text, and what follows. -/
theorem Spells.glue (h : Spells ms text) {s : Symbol} (hs : s = .comma ∨ s = .rparen)
    (htail : written .compact (some (.symbol s)) (ns.map Mark.piece) = text')
    (hscans : ∀ rest, Ends rest → ScansAll .compact (ns.map Mark.piece) rest) :
    Spells (ms ++ ⟨true, .symbol s⟩ :: ns) (text ++ (s.text.toList ++ text')) where
  writes previous := by
    rw [List.map_append, Lexer.written_append, h.writes, written_cons_true, htail]
    simp [Token.Kind.source]
  scans rest hr := by
    rw [List.map_append]
    refine Lexer.scansAll_append none ?_ ⟨Lexer.scans_symbol ?_ true _, hscans rest hr⟩
    · rw [written_cons_true]
      refine h.scans _ fun c hc => ?_
      rcases hs with rfl | rfl
      · exact .inr (.inl (Option.some.inj hc).symm)
      · exact .inr (.inr (Option.some.inj hc).symm)
    · rcases hs with rfl | rfl <;> simp

theorem spells_items {items : List (List Mark)} {texts : List String}
    (h : List.Forall₂ (fun ms text => Spells ms text.toList) items texts) (hne : items ≠ []) :
    Spells (itemMarks true items) ((", ".intercalate texts).toList ++ [')']) := by
  induction h with
  | nil => exact absurd rfl hne
  | @cons ms text items texts hm hrest ih =>
    cases hrest with
    | nil =>
      rw [String.intercalate_singleton]
      exact hm.glue (.inr rfl) rfl fun _ _ => trivial
    | @cons ms' text' items texts hm' hrest =>
      have htail := ih nofun
      have hcomma := hm.glue (.inl rfl) (htail.writes (some (.symbol .comma))) htail.scans
      rw [String.intercalate_cons_cons, String.toList_append, String.toList_append,
        List.append_assoc, List.append_assoc]
      exact hcomma

theorem spells_list {items : List (List Mark)} {texts : List String}
    (h : List.Forall₂ (fun ms text => Spells ms text.toList) items texts) (hne : items ≠ []) :
    Spells (listMarks items) (listText texts).toList := by
  have hitems := spells_items h hne
  constructor
  · intro previous
    rw [listMarks, written_cons_false, hitems.writes, listText, String.toList_append,
      String.toList_append, List.append_assoc]
    rfl
  · intro rest hr
    exact ⟨Lexer.scans_symbol (by simp) false _, hitems.scans rest hr⟩

/-- The items of a list are spelled one by one. -/
theorem spells_map {α : Type} {marks : α → List Mark} {texts : α → String} {xs : List α}
    (hne : xs ≠ []) (h : ∀ x ∈ xs, Spells (marks x) (texts x).toList) :
    Spells (listMarks (xs.map marks)) (listText (xs.map texts)).toList := by
  refine spells_list ?_ (by simpa using hne)
  rw [List.forall₂_map_left_iff, List.forall₂_map_right_iff, List.forall₂_same]
  exact h

/-! ### Geometries -/

theorem spells_line {cs : List Coord} (hcs : Full Coord.IsFinite cs) :
    Spells (lineMarks cs) (Geometry.lineWkt cs).toList :=
  spells_map hcs.1 fun c hc => spells_coord (hcs.2 c hc)

theorem spells_rings {rs : List (List Coord)} (hrs : Full (Full Coord.IsFinite) rs) :
    Spells (ringsMarks rs) (Geometry.ringsWkt rs).toList :=
  spells_map hrs.1 fun cs hcs => spells_line (hrs.2 cs hcs)

theorem spells_point {c : Coord} (hc : c.IsFinite) :
    Spells (pointMarks c) (listText [c.wkt]).toList := by
  have hone : Full Coord.IsFinite [c] := ⟨by simp, by simpa using hc⟩
  exact spells_line hone

/-- A shape that is a list: its name with `EMPTY`, or with the list in parentheses. -/
theorem spells_listShape {α : Type} (kind : Geometry.Kind) {xs : List α} {body : String}
    (h : xs ≠ [] → Spells ms body.toList) :
    Spells (shapeMarks kind (if xs.isEmpty then emptyMarks else ms))
      (if xs.isEmpty then Geometry.emptyWkt kind else Geometry.tagged kind body).toList := by
  cases xs with
  | nil => exact spells_shape kind spells_empty
  | cons x xs => exact spells_shape kind (h nofun)

theorem Geometry.wktMembers_eq (gs : List Geometry) (done : List String) :
    wktMembers gs done = done.reverse ++ gs.map wkt := by
  induction gs generalizing done with
  | nil => rw [wktMembers, List.map_nil, List.append_nil]
  | cons g gs ih => rw [wktMembers, ih, List.map_cons, List.reverse_cons, List.append_assoc]; rfl

mutual

/-- **A geometry is spelled by its marks.** -/
theorem spells_geometry : ∀ g : Geometry, g.Sound → Spells g.marks g.wkt.toList
  | .point c, h => by
    rw [Geometry.Sound] at h
    rw [Geometry.marks, Geometry.wkt]
    exact spells_shape .point (spells_point h)
  | .lineString cs, h => by
    rw [Geometry.Sound] at h
    rw [Geometry.marks, Geometry.wkt]
    exact spells_listShape .lineString fun hne => spells_line ⟨hne, h⟩
  | .polygon rs, h => by
    rw [Geometry.Sound] at h
    rw [Geometry.marks, Geometry.wkt]
    exact spells_listShape .polygon fun hne => spells_rings ⟨hne, h⟩
  | .multiPoint cs, h => by
    rw [Geometry.Sound] at h
    rw [Geometry.marks, Geometry.wkt]
    exact spells_listShape .multiPoint fun hne => spells_map hne fun c hc => spells_point (h c hc)
  | .multiLineString ls, h => by
    rw [Geometry.Sound] at h
    rw [Geometry.marks, Geometry.wkt]
    exact spells_listShape .multiLineString fun hne => spells_rings ⟨hne, h⟩
  | .multiPolygon ps, h => by
    rw [Geometry.Sound] at h
    rw [Geometry.marks, Geometry.wkt]
    exact spells_listShape .multiPolygon fun hne => spells_map hne fun p hp => spells_rings (h p hp)
  | .collection gs, h => by
    rw [Geometry.Sound] at h
    rw [Geometry.marks, Geometry.wkt, Geometry.marksMembers_eq, Geometry.wktMembers_eq]
    exact spells_listShape .collection fun hne => spells_map hne (spells_members gs h)

theorem spells_members : ∀ gs : List Geometry, Geometry.soundMembers gs →
    ∀ g ∈ gs, Spells g.marks g.wkt.toList
  | [], _, g, hg => nomatch hg
  | g₀ :: gs, h, g, hg => by
    rw [Geometry.soundMembers] at h
    rcases List.mem_cons.1 hg with hg | hg
    · exact hg ▸ spells_geometry g₀ h.1
    · exact spells_members gs h.2 g hg

end

end

/-! ## Programs -/

variable {g : Geometry}

theorem Expr.denotes_seq {e : Expr} {v : Value} (he : e.Denotes v) (p : Position) :
    Denotes v (.seq [e] p) := by
  intro ctx
  rw [Expr.eval, Expr.evalSeq]
  refine (he ctx).bind ?_
  rw [Expr.evalSeq]
  exact .pure _

theorem item_of_geometry {n : Nat} {sub : Goal → TokenReader Expr} {kind : Geometry.Kind}
    (c : Cursor) (m : Memory) (hk : c.kind = .geometry kind) :
    item n sub c m = expression n sub c m := by
  rw [item, bind_eq (show here c m = (.ok c c, m) from rfl)]
  simp only [hk]

/-- A geometry makes up a program. -/
theorem takes_program (hg : g.Sound) (tokens : List Token) (n : Nat) :
    Takes tokens n (program n) g.marks (· = .eof) (Expr.Denotes (.geometry g)) := by
  obtain ⟨ks, hks⟩ := g.marks_cons
  have hsequence : Takes tokens n (run n .sequence) g.marks (· = .eof)
      (Expr.Denotes (.geometry g)) := by
    refine takes_run (fun n => ?_) n
    have hexpression : Takes tokens (n + 1) (expression (n + 1) (run n)) g.marks (· = .eof)
        (Expr.Denotes (.geometry g)) :=
      (takes_geometry g (n + 1) hg).imp (fun _ h => h ▸ closes_eof) fun _ h => h
    rw [hks] at hexpression ⊢
    refine takes_position.bind_nil follows_any fun p _ => ?_
    have hitems : Takes tokens (n + 1) (sequenceItems (n + 1) (run n) (n + 1) [])
        (⟨false, .geometry g.kind⟩ :: ks) (· = .eof)
        (fun es => ∃ e, es = [e] ∧ e.Denotes (.geometry g)) := by
      refine TakesWith.bind_peek ?_
      refine (takes_accept_none (.symbol .semicolon)).bind_nil (by simp [Follows]) ?_
      rintro b rfl
      refine (TakesWith.congr item_of_geometry hexpression).bind_pure fun e he => ?_
      refine ((takes_accept_none (.symbol .semicolon)).imp (by rintro _ rfl ⟨⟩)
        fun _ h => h).bind_nil (fun _ h => h) ?_
      rintro b rfl
      exact takes_pure ⟨e, rfl, he⟩
    refine hitems.bind_pure ?_
    rintro es ⟨e, rfl, he⟩
    exact takes_pure (Expr.denotes_seq he p)
  refine hsequence.bind_pure fun e he => ?_
  refine takes_peekKind.bind_nil (fun _ h => h) ?_
  rintro kind rfl
  exact takes_pure he

theorem parse_wkt (hg : g.Sound) :
    ∃ e, parse g.wkt = .ok e ∧ e.Denotes (.geometry g) := by
  have hspells := spells_geometry g hg
  obtain ⟨ts, e, hscan, hmarked, heof⟩ := Lexer.scan_written
    Lexer.Layout.parts_compact (hspells.scans [] fun c hc => by cases hc) (hspells.writes none).symm
  rw [Mark.map_mark_map_piece] at hmarked
  obtain ⟨a, m, hrun, -, ha⟩ := takes_program hg (ts ++ [e]) ((ts ++ [e]).length + 1) none ts e [] 0
    (some ∅) rfl hmarked heof (goodMemory_empty _) (by
      rw [List.length_append, List.length_nil, List.length_singleton]
      omega)
  refine ⟨a, ?_, ha⟩
  rw [parse, hscan]
  show Expr.parseWith (some ∅) (ts ++ [e]) = .ok a
  rw [Expr.parseWith, Cursor.start, hrun]

/-- **Well-known text reads back.** Evaluating the text of a geometry gives just this geometry. -/
theorem evaluate_wkt (hg : g.Sound) (scope : ScopeId) (h : Heap) :
    (evaluate g.wkt scope h).1 = .ok (.geometry g) := by
  obtain ⟨e, hparse, he⟩ := parse_wkt hg
  rw [evaluate_of_parse hparse]
  have hrun : (h.execute callLimit e scope).1 = .ok (.geometry g) :=
    congrArg Prod.fst (he _ { h with programs := h.programs + 1 })
  rw [hrun]
  rfl

/-- Points with signs in both places, the negative zero, and empty shapes at two depths. -/
theorem evaluate_wkt_nested : ∃ g : Geometry,
    g.wkt = "GEOMETRYCOLLECTION (MULTIPOINT ((1 -1), (-0 2.5)), GEOMETRYCOLLECTION EMPTY)" ∧
    (evaluate g.wkt 0 (Heap.empty 0)).1 = .ok (.geometry g) := by
  refine ⟨.collection [.multiPoint [⟨1, -1⟩, ⟨-0.0, 2.5⟩], .collection []], by decide +kernel, ?_⟩
  refine evaluate_wkt ?_ 0 (Heap.empty 0)
  simp only [Geometry.Sound, Geometry.soundMembers, List.forall_mem_cons]
  exact ⟨⟨⟨by decide +kernel, by decide +kernel⟩, ⟨by decide +kernel, by decide +kernel⟩, nofun⟩,
    trivial, trivial⟩

end GeoScript
