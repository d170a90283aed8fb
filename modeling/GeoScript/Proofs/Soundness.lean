import GeoScript.Proofs.Derivations
import GeoScript.Proofs.PairMemory

/-!
# The parser is sound

**Reading.** A reader that succeeds has passed some tokens and given a result; `Reads` says how
these belong together. Readers in sequence pass tokens side by side (`reads_bind`), so that a
nonterminal is treated rule by rule as the parser meets its parts. An attempt that gives nothing has
passed nothing, whatever it read and remembered on its way: it leaves no trace in the tree.

**Loops.** Operators, accessors and lists are read by loops that hand on what they have made so far.
The invariant is that the tokens passed so far make it.

**Theorem (`parse_sound`).** If the tokens before the end mark are parsed into a tree, then the
whole list is derived from a program, with this tree.
-/

namespace GeoScript

open Token (Kind)
open TokenReader Grammar

/-! ## Passing tokens -/

/-- A token that is not an end mark is passed, and another one follows. -/
theorem Cursor.rest_eq {c : Cursor} (hend : EndMarked c.rest) (hk : c.kind ≠ .eof) :
    c.rest = c.token :: c.advance.rest ∧ EndMarked c.advance.rest := by
  obtain ⟨e, hlast, he⟩ := hend
  unfold Cursor.advance
  match hrest : c.rest with
  | [] => simp [hrest] at hlast
  | [t] =>
    rw [hrest] at hlast
    obtain rfl : t = e := Option.some.inj hlast
    refine absurd ?_ hk
    rw [kind, token, hrest]
    exact he
  | t :: u :: us =>
    have htoken : c.token = t := by rw [token, hrest]; rfl
    rw [hrest] at hlast
    exact ⟨by rw [htoken], e, by simpa using hlast, he⟩

/-- A sign of a coordinate touches the number behind it. -/
theorem Cursor.touches_of_atCoordinateSign {c : Cursor} (h : c.atCoordinateSign = true) :
    c.token.touches c.advance.token = true := by
  obtain ⟨previous, rest, index⟩ := c
  match rest, h with
  | t :: u :: us, h =>
    have hnumber : (t :: u :: us)[1]? = some u := rfl
    simp only [atCoordinateSign, hnumber, Bool.and_eq_true] at h
    exact h.1.2

/-- Cursors with the same tokens to come are at the same token. -/
theorem Cursor.token_congr {c d : Cursor} (h : c.rest = d.rest) : c.token = d.token := by
  rw [token, token, h]

section

variable {α β : Type} {c : Cursor} {R : List Token → β → Prop} {S : List Token → α → Prop}

/-- If the reader succeeds, then the tokens it has passed and its result are in `R`. -/
def Reads (c : Cursor) (p : TokenReader α) (S : List Token → α → Prop) : Prop :=
  EndMarked c.rest → ∀ m a c' m', p c m = (.ok a c', m') →
    ∃ ts, c.rest = ts ++ c'.rest ∧ EndMarked c'.rest ∧ S ts a

theorem Reads.imp {p : TokenReader α} {T : List Token → α → Prop} (hp : Reads c p S)
    (h : ∀ ts a, S ts a → T ts a) : Reads c p T := by
  intro hend m a c' m' hrun
  obtain ⟨ts, hrest, hend', ha⟩ := hp hend m a c' m' hrun
  exact ⟨ts, hrest, hend', h ts a ha⟩

theorem reads_pure {a : α} (h : S [] a) : Reads c (pure a) S := by
  intro hend m b c' m' hrun
  cases hrun
  exact ⟨[], rfl, hend, h⟩

theorem reads_unexpected {wanted : Expectation} : Reads c (unexpected wanted) S := by
  intro _ m a c' m' hrun
  cases hrun

/-- **Readers in sequence pass tokens side by side.** -/
theorem reads_bind {p : TokenReader α} {f : α → TokenReader β} (hp : Reads c p S)
    (hf : ∀ ts a c', S ts a → c.rest = ts ++ c'.rest → Reads c' (f a) fun us => R (ts ++ us)) :
    Reads c (p >>= f) R := by
  intro hend m b c₂ m₂ hrun
  have hrun : TokenReader.bind p f c m = (.ok b c₂, m₂) := hrun
  unfold TokenReader.bind at hrun
  split at hrun
  · next a c₁ m₁ hfirst =>
    obtain ⟨ts, hrest, hend₁, ha⟩ := hp hend m a c₁ m₁ hfirst
    obtain ⟨us, hrest₁, hend₂, hb⟩ := hf ts a c₁ ha hrest hend₁ m₁ b c₂ m₂ hrun
    exact ⟨ts ++ us, by rw [hrest, hrest₁, List.append_assoc], hend₂, hb⟩
  · cases hrun
  · cases hrun

/-! ### Single tokens -/

theorem reads_here_bind {f : Cursor → TokenReader β} (h : Reads c (f c) R) :
    Reads c (here >>= f) R := h

theorem reads_position_bind {f : Position → TokenReader β} (h : Reads c (f c.token.position) R) :
    Reads c (position >>= f) R := h

theorem reads_peekKind_bind {f : Kind → TokenReader β} (h : Reads c (f c.kind) R) :
    Reads c (peekKind >>= f) R := h

theorem reads_next_bind {f : Token → TokenReader β} (hk : c.kind ≠ .eof)
    (h : Reads c.advance (f c.token) fun ts => R (c.token :: ts)) : Reads c (next >>= f) R := by
  intro hend m b c' m' hrun
  obtain ⟨hrest, hend₁⟩ := Cursor.rest_eq hend hk
  obtain ⟨ts, hrest₁, hend', hb⟩ := h hend₁ m b c' m' hrun
  exact ⟨c.token :: ts, by rw [hrest, hrest₁]; rfl, hend', hb⟩

theorem reads_expect_bind {k : Kind} {f : Unit → TokenReader β} (hk : k ≠ .eof)
    (h : c.kind = k → Reads c.advance (f ()) fun ts => R (c.token :: ts)) :
    Reads c (expect k >>= f) R := by
  intro hend m b c' m' hrun
  by_cases hkind : c.kind = k
  · refine reads_next_bind (f := fun _ => f ()) (hkind ▸ hk) (h hkind) hend m b c' m' ?_
    rw [← hrun]
    show f () c.advance m = TokenReader.bind (expect k) f c m
    unfold TokenReader.bind expect
    simp [hkind]
  · have hrun : TokenReader.bind (expect k) f c m = (.ok b c', m') := hrun
    unfold TokenReader.bind expect at hrun
    simp [hkind] at hrun

theorem reads_accept_bind {k : Kind} {f : Bool → TokenReader β} (hk : k ≠ .eof)
    (htrue : c.kind = k → Reads c.advance (f true) fun ts => R (c.token :: ts))
    (hfalse : c.kind ≠ k → Reads c (f false) R) : Reads c (accept k >>= f) R := by
  intro hend m b c' m' hrun
  have hrun : TokenReader.bind (accept k) f c m = (.ok b c', m') := hrun
  unfold TokenReader.bind accept at hrun
  by_cases hkind : c.kind = k
  · refine reads_next_bind (f := fun _ => f true) (hkind ▸ hk) (htrue hkind) hend m b c' m' ?_
    rw [← hrun]
    show f true c.advance m = _
    simp [hkind]
  · simp only [beq_iff_eq, hkind, if_false] at hrun
    exact hfalse hkind hend m b c' m' hrun

theorem reads_ident : Reads c ident (Derives .identifier) := by
  intro hend m name c' m' hrun
  unfold ident at hrun
  split at hrun
  · next word hk =>
    cases hrun
    obtain ⟨hrest, hend₁⟩ := Cursor.rest_eq hend (by simp [hk])
    exact ⟨[c.token], hrest, hend₁, .identifier hk⟩
  · cases hrun

/-! ### Attempts -/

/-- What an attempt reads, if it does not give nothing. -/
def Tried (S : List Token → α → Prop) : List Token → Option α → Prop
  | ts, none => ts = []
  | ts, some a => S ts a

/-- **An attempt that gives nothing passes nothing.** -/
theorem reads_attempt {p : TokenReader (Option α)}
    (hp : Reads c p fun ts r => ∀ a, r = some a → S ts a) : Reads c (attempt p) (Tried S) := by
  intro hend m r c' m' hrun
  unfold attempt at hrun
  split at hrun
  · next a c₁ m₁ hrun₁ =>
    cases hrun
    obtain ⟨ts, hrest, hend', ha⟩ := hp hend m _ _ _ hrun₁
    exact ⟨ts, hrest, hend', ha a rfl⟩
  · cases hrun
    exact ⟨[], rfl, hend, rfl⟩
  · cases hrun
    exact ⟨[], rfl, hend, rfl⟩
  · cases hrun

end

/-! ## Lists -/

section

variable {c : Cursor} {s : Phrase} {item : TokenReader s.Tree} {n : Nat}

theorem reads_items (hitem : ∀ c, Reads c item (Derives s)) (done : List s.Tree) :
    Reads c (items item n done) fun ts as => ∃ us u bs, ts = us ++ [u] ∧
      u.kind = .symbol .rparen ∧ Derives (.series s) us bs ∧ as = done.reverse ++ bs := by
  induction n generalizing c done with
  | zero =>
    intro _ m a c' m' hrun
    cases hrun
  | succ n ih =>
    refine reads_bind (hitem c) fun ts a c₁ ha _ => ?_
    refine reads_accept_bind nofun (fun hcomma => ?_) fun _ => ?_
    · refine (ih (a :: done)).imp ?_
      rintro _ as ⟨us, u, bs, rfl, hu, hbs, rfl⟩
      exact ⟨ts ++ c₁.token :: us, u, a :: bs, by simp, hu, .more ha hcomma hbs, by simp⟩
    · refine reads_expect_bind nofun fun hclose => reads_pure ?_
      exact ⟨ts, c₁.token, [a], rfl, hclose, .last ha, by simp⟩

theorem reads_list (hitem : ∀ c, Reads c item (Derives s)) :
    Reads c (list n false item) (Derives (.list s)) := by
  refine reads_expect_bind nofun fun hopen => ?_
  refine (reads_items hitem []).imp ?_
  rintro _ as ⟨us, u, bs, rfl, hu, hbs, rfl⟩
  exact .list hopen hbs hu

theorem reads_listOrNone (hitem : ∀ c, Reads c item (Derives s)) :
    Reads c (list n true item) (Derives (.listOrNone s)) := by
  refine reads_expect_bind nofun fun hopen => ?_
  refine reads_accept_bind nofun (fun hclose => reads_pure (.none hopen hclose)) fun _ => ?_
  refine (reads_items hitem []).imp ?_
  rintro _ as ⟨us, u, bs, rfl, hu, hbs, rfl⟩
  exact .some (.list hopen hbs hu)

end

/-! ## The nonterminals -/

/-- What the parser of a goal reads; a sequence has the place where it is started. -/
def Goal.Derived : Goal → Position → List Token → Expr → Prop
  | .expression, _, ts, e => Derives .expression ts e
  | .additive, _, ts, e => Derives (.level .additive) ts e
  | .power, _, ts, e => Derives .power ts e
  | .unary, _, ts, e => Derives .unary ts e
  | .sequence, p, ts, e => ∃ es, Derives .items ts es ∧ e = .seq es p

section

variable {n : Nat} {sub : Goal → TokenReader Expr} {c : Cursor} {R : List Token → Expr → Prop}
  (hsub : ∀ g c, Reads c (sub g) (g.Derived c.token.position))
include hsub

theorem reads_arguments : Reads c (arguments n sub) (Derives (.listOrNone .expression)) :=
  reads_listOrNone (s := .expression) fun c => hsub .expression c

theorem reads_callTail {callee : Expr} (hplain : R [] callee)
    (hcall : ∀ ts args, Derives (.listOrNone .expression) ts args → R ts (.call callee args)) :
    Reads c (callTail n sub callee) R := by
  refine reads_peekKind_bind ?_
  split
  · refine reads_bind (reads_arguments hsub) fun ts args c₁ hargs _ => reads_pure ?_
    rw [List.append_nil]
    exact hcall ts args hargs
  · exact reads_pure hplain

theorem reads_named {name : String} (hk : c.kind = .ident name) :
    Reads c (next >>= fun _ => callTail n sub (.ident name c.token.position)) (Derives .named) := by
  refine reads_next_bind (by simp [hk]) ?_
  exact reads_callTail hsub (.name hk) fun ts args hargs => .nameCall hk hargs

theorem reads_group (hk : c.kind = .symbol .lparen) :
    Reads c (do let _ ← next; let e ← sub .expression; expect (.symbol .rparen); return e)
      (Derives .group) := by
  refine reads_next_bind (by simp [hk]) ?_
  refine reads_bind (hsub .expression _) fun ts e c₁ he _ => ?_
  refine reads_expect_bind nofun fun hclose => reads_pure ?_
  exact .parentheses hk he hclose

/-- A sequence and the token that closes it. -/
theorem reads_closed {close : Kind} (hne : close ≠ .eof) {f : Expr → TokenReader Expr}
    (hf : ∀ ts e c', Derives (.sequence close) ts e → Reads c' (f e) fun us => R (ts ++ us)) :
    Reads c (sub .sequence >>= fun e => expect close >>= fun _ => f e) R := by
  intro hend
  refine reads_bind (hsub .sequence c) (fun ts e c₁ he hrest => ?_) hend
  obtain ⟨es, hes, rfl⟩ := he
  refine reads_expect_bind hne fun hclose => ?_
  -- The place of the sequence is that of its first token, or of the one that closes it.
  have hfirst : c.token = ts.headD c₁.token := by
    rw [Cursor.token, hrest]
    cases ts with
    | nil => rfl
    | cons t ts => rfl
  rw [hfirst]
  refine (hf _ _ _ (.sequence hes hclose)).imp fun us b hb => ?_
  rwa [List.append_assoc] at hb

/-! ### Coordinates -/

theorem reads_coord : Reads c (coord n sub) (Derives .coord) := by
  refine reads_here_bind ?_
  split
  · next x hk =>
    exact reads_next_bind (by simp [hk]) (reads_pure (.plainCoord hk))
  · next name hk => exact (reads_named hsub hk).imp fun _ _ => .namedCoord
  · next hk => exact (reads_group hsub hk).imp fun _ _ => .groupCoord
  · next s _ hk =>
    split
    · next hsign =>
      obtain ⟨hs, hsign⟩ := hsign
      obtain ⟨x, hx⟩ := Cursor.number_of_atCoordinateSign hsign
      have hnumber : c.advance.kind = .number x := Cursor.kind_advance hx
      have htouch := Cursor.touches_of_atCoordinateSign hsign
      refine reads_next_bind (by simp [hk]) (reads_next_bind (by simp [hnumber]) ?_)
      have hnumber' : c.advance.token.kind = .number x := hnumber
      simp only [hnumber']
      refine reads_pure ?_
      rcases hs with rfl | rfl
      · exact .plusCoord hk hnumber htouch
      · exact .minusCoord hk hnumber htouch
    · exact reads_unexpected
  · exact reads_unexpected

theorem reads_extraCoord : Reads c (extraCoord n sub) fun ts b =>
    b = true ∧ (∃ z, Derives .coord ts z) ∨ b = false ∧ ts = [] := by
  refine reads_here_bind ?_
  split
  · refine reads_bind (reads_coord hsub) fun ts z c₁ hz _ => reads_pure ?_
    rw [List.append_nil]
    exact .inl ⟨rfl, z, hz⟩
  · exact reads_pure (.inr ⟨rfl, rfl⟩)

theorem reads_pair : Reads c (pair n sub) (Derives .pair) := by
  refine reads_bind (reads_coord hsub) fun ts x c₁ hx _ => ?_
  refine reads_bind (reads_coord hsub) fun us y c₂ hy _ => ?_
  refine reads_bind (reads_extraCoord hsub) fun vs b c₃ hb _ => ?_
  obtain ⟨rfl, z, hz⟩ | ⟨rfl, rfl⟩ := hb
  · refine reads_bind (reads_extraCoord hsub) fun ws b c₄ hb _ => reads_pure ?_
    rw [List.append_nil]
    obtain ⟨-, m, hm⟩ | ⟨-, rfl⟩ := hb
    · exact .four hx hy hz hm
    · rw [List.append_nil]
      exact .three hx hy hz
  · refine reads_pure ?_
    rw [List.append_nil, List.append_nil]
    exact .two hx hy

theorem reads_tryPair : Reads c (tryPair n sub) (Tried (Derives .pair)) := by
  have hattempt : Reads c (attempt (pairBeforeDelimiter n sub)) (Tried (Derives .pair)) := by
    refine reads_attempt (reads_bind (reads_pair hsub) fun ts xy c₁ hxy _ => ?_)
    refine reads_peekKind_bind ?_
    have hsome : ∀ xy', some xy = some xy' → Derives .pair (ts ++ []) xy' := by
      rintro _ ⟨⟩
      rwa [List.append_nil]
    split
    · exact reads_pure hsome
    · exact reads_pure hsome
    · exact reads_pure nofun
  intro hend m r c' m' hrun
  unfold tryPair at hrun
  split at hrun
  · cases hrun
    exact ⟨[], rfl, hend, rfl⟩
  · split at hrun
    · next c₁ m₁ hrun₁ =>
      cases hrun
      exact hattempt hend m none _ _ hrun₁
    · exact hattempt hend m r c' m' hrun

/-- A pair in parentheses, and what else may stand there. -/
theorem reads_pointOr {other : TokenReader Expr} (hpoint : ∀ ts e, Derives .barePoint ts e → R ts e)
    (hother : ∀ c', c.rest = c'.rest → Reads c' other R) :
    Reads c (do
      match ← tryParenthesizedPair n sub with
      | some (x, y) => return .geometry .point (.point x y) c.token.position
      | none => other) R := by
  have htry : Reads c (tryParenthesizedPair n sub) (Tried fun ts xy =>
      Derives .barePoint ts (.geometry .point (.point xy.1 xy.2) c.token.position)) := by
    refine reads_attempt (reads_accept_bind nofun (fun hopen => ?_) fun _ => reads_pure nofun)
    refine reads_bind (reads_tryPair hsub) fun ts r c₁ hr _ => ?_
    cases r with
    | none => exact reads_pure nofun
    | some xy =>
      refine reads_accept_bind nofun (fun hclose => reads_pure ?_) fun _ => reads_pure nofun
      rintro _ ⟨⟩
      exact .barePoint hopen hr hclose
  refine reads_bind htry fun ts r c₁ hr hrest => ?_
  cases r with
  | none =>
    obtain rfl : ts = [] := hr
    exact hother c₁ hrest
  | some xy =>
    refine reads_pure (hpoint _ _ ?_)
    rw [List.append_nil]
    exact hr

theorem reads_element : Reads c (element n sub) (Derives .element) := by
  refine reads_bind (reads_tryPair hsub) fun ts r c₁ hr _ => ?_
  cases r with
  | none =>
    obtain rfl : ts = [] := hr
    refine reads_bind (hsub .expression c₁) fun us e c₂ he _ => reads_pure ?_
    rw [List.append_nil]
    exact .valueElement he
  | some xy =>
    refine reads_pure ?_
    rw [List.append_nil]
    exact .pairElement hr

/-! ### Shapes -/

theorem reads_rings : Reads c (list n false (ring n sub)) (Derives (.list (.list .element))) :=
  reads_list (s := .list .element) fun _ => reads_list (s := .element) fun _ => reads_element hsub

theorem reads_body (kind : Geometry.Kind) : Reads c (body n sub kind) (Derives (.body kind)) := by
  have helements : Reads c (list n false (element n sub)) (Derives (.list .element)) :=
    reads_list (s := .element) fun _ => reads_element hsub
  cases kind with
  | point =>
    refine reads_expect_bind nofun fun hopen => ?_
    refine reads_bind (reads_pair hsub) fun ts xy c₁ hxy _ => ?_
    refine reads_expect_bind nofun fun hclose => reads_pure ?_
    exact .pointBody hopen hxy hclose
  | lineString =>
    refine reads_bind helements fun ts es c₁ hes _ => reads_pure ?_
    rw [List.append_nil]
    exact .lineStringBody hes
  | multiPoint =>
    refine reads_bind helements fun ts es c₁ hes _ => reads_pure ?_
    rw [List.append_nil]
    exact .multiPointBody hes
  | collection =>
    refine reads_bind (reads_listOrNone (s := .element) fun _ => reads_element hsub)
      fun ts es c₁ hes _ => reads_pure ?_
    rw [List.append_nil]
    exact .collectionBody hes
  | polygon =>
    refine reads_bind (reads_rings hsub) fun ts rs c₁ hrs _ => reads_pure ?_
    rw [List.append_nil]
    exact .polygonBody hrs
  | multiLineString =>
    refine reads_bind (reads_rings hsub) fun ts rs c₁ hrs _ => reads_pure ?_
    rw [List.append_nil]
    exact .multiLineStringBody hrs
  | multiPolygon =>
    refine reads_bind (reads_list (s := .list (.list .element)) fun _ => reads_rings hsub)
      fun ts ps c₁ hps _ => reads_pure ?_
    rw [List.append_nil]
    exact .multiPolygonBody hps

theorem reads_geometry {kind : Geometry.Kind} (hk : c.kind = .geometry kind) :
    Reads c (geometry n sub kind) (Derives .geometry) := by
  refine reads_position_bind (reads_next_bind (by simp [hk]) (reads_peekKind_bind ?_))
  split
  · next word hword =>
    split
    · next hempty =>
      refine reads_next_bind (by simp [hword]) (reads_pure ?_)
      exact .emptyShape hk hword (by simpa using hempty)
    · exact reads_pure (.typeTag hk)
  · refine reads_bind (reads_body hsub kind) fun ts b c₁ hb _ => reads_pure ?_
    rw [List.append_nil]
    exact .shape hk hb
  · exact reads_pure (.typeTag hk)

/-! ### Functions, repetition and choice -/

omit hsub in
theorem reads_params : Reads c (params n) (Derives .params) := by
  refine reads_peekKind_bind ?_
  split
  · exact (reads_listOrNone (s := .identifier) fun _ => reads_ident).imp fun _ _ => .params
  · refine reads_bind reads_ident fun ts name c₁ hname _ => reads_pure ?_
    cases hname with
    | identifier hk => exact .oneParam hk

theorem reads_function : Reads c (function n sub) (Derives .function) := by
  refine reads_position_bind (reads_expect_bind nofun fun hword => ?_)
  refine reads_expect_bind nofun fun hopen => ?_
  refine reads_bind reads_params fun ts names c₁ hnames _ => ?_
  refine reads_expect_bind nofun fun harrow => ?_
  refine reads_accept_bind nofun (fun hbrace => ?_) fun _ => ?_
  · refine reads_closed hsub (by nofun) fun us e c₂ he => ?_
    refine reads_expect_bind nofun fun hclose => reads_pure ?_
    exact .bracedFunction hword hopen hnames harrow hbrace he hclose
  · refine reads_closed hsub (by nofun) fun us e c₂ he => reads_pure ?_
    rw [List.append_nil]
    exact .plainFunction hword hopen hnames harrow he

theorem reads_generate : Reads c (generate sub) (Derives .generate) := by
  refine reads_position_bind (reads_expect_bind nofun fun hword => ?_)
  refine reads_bind (hsub .additive _) fun ts e c₁ he _ => ?_
  refine reads_bind (hsub .additive _) fun us f c₂ hf _ => reads_pure ?_
  rw [List.append_nil]
  exact .generation hword he hf

theorem reads_branch : Reads c (branch n sub) (Derives .branch) := by
  refine reads_position_bind (reads_pointOr hsub (fun _ _ => .pointBranch) fun c₁ _ => ?_)
  refine reads_expect_bind nofun fun hopen => ?_
  refine reads_closed hsub (by nofun) fun ts e c₂ he => reads_pure ?_
  rw [List.append_nil]
  exact .sequenceBranch hopen he

theorem reads_condition : Reads c (condition n sub) (Derives .condition) := by
  refine reads_position_bind (reads_expect_bind nofun fun hif => ?_)
  refine reads_bind (hsub .expression _) fun ts e c₁ he _ => ?_
  refine reads_expect_bind nofun fun hthen => ?_
  refine reads_bind (reads_branch hsub) fun us f c₂ hf _ => ?_
  refine reads_expect_bind nofun fun helse => ?_
  refine reads_bind (reads_branch hsub) fun vs g c₃ hg _ => reads_pure ?_
  rw [List.append_nil]
  exact .choice hif he hthen hf helse hg

/-! ### Expressions -/

theorem reads_primary : Reads c (primary n sub) (Derives .primary) := by
  refine reads_position_bind (reads_peekKind_bind ?_)
  split
  · next x hk => exact reads_next_bind (by simp [hk]) (reads_pure (.number hk))
  · next b hk => exact reads_next_bind (by simp [hk]) (reads_pure (.bool hk))
  · next name hk => exact (reads_named hsub hk).imp fun _ _ => .named
  · next kind hk => exact (reads_geometry hsub hk).imp fun _ _ => .geometry
  · refine reads_bind (reads_function hsub) fun ts e c₁ he _ => ?_
    refine reads_callTail hsub ?_ fun us args hargs => .functionCall he hargs
    rw [List.append_nil]
    exact .function he
  · exact (reads_generate hsub).imp fun _ _ => .generate
  · exact (reads_condition hsub).imp fun _ _ => .condition
  · next hk =>
    refine reads_position_bind (reads_pointOr hsub (fun _ _ => .point) fun c₁ hrest => ?_)
    have hk₁ : c₁.kind = .symbol .lparen := by
      rw [Cursor.kind, ← Cursor.token_congr hrest]
      exact hk
    exact (reads_group hsub hk₁).imp fun _ _ => .group
  · exact reads_unexpected

/-- The tokens passed so far make the target. -/
theorem reads_accessors {k : Nat} {ts : List Token} {target : Expr}
    (htarget : Derives .postfixed ts target) :
    Reads c (accessors n sub k target) fun us => Derives .postfixed (ts ++ us) := by
  induction k generalizing c ts target with
  | zero =>
    intro _ m a c' m' hrun
    cases hrun
  | succ k ih =>
    refine reads_accept_bind nofun (fun hcolon => ?_) fun _ => ?_
    · refine reads_bind reads_ident fun us property c₁ hproperty _ => ?_
      cases hproperty with
      | @identifier t _ hk =>
        refine reads_bind (reads_arguments hsub) fun vs args c₂ hargs _ => ?_
        refine (ih (.access htarget hcolon hk hargs)).imp fun ws e he => ?_
        simpa using he
    · refine reads_pure ?_
      rwa [List.append_nil]

theorem reads_unary : Reads c (unary n sub) (Derives .unary) := by
  refine reads_position_bind (reads_accept_bind nofun (fun hminus => ?_) fun _ => ?_)
  · refine reads_bind (hsub .unary _) fun ts e c₁ he _ => reads_pure ?_
    rw [List.append_nil]
    exact .neg hminus he
  refine reads_accept_bind nofun (fun hbang => ?_) fun _ => ?_
  · refine reads_bind (hsub .unary _) fun ts e c₁ he _ => reads_pure ?_
    rw [List.append_nil]
    exact .not hbang he
  · refine reads_bind (reads_primary hsub) fun ts e c₁ he _ => ?_
    exact (reads_accessors hsub (.primary he)).imp fun us f hf => .postfixed hf

theorem reads_power : Reads c (power n sub) (Derives .power) := by
  refine reads_bind (reads_unary hsub) fun ts e c₁ he _ => ?_
  refine reads_accept_bind nofun (fun hcaret => ?_) fun _ => reads_pure ?_
  · refine reads_bind (hsub .power _) fun us f c₂ hf _ => reads_pure ?_
    rw [List.append_nil]
    exact .power he hcaret hf
  · rw [List.append_nil]
    exact .base he

omit hsub in
/-- The tokens passed so far make the left operand. -/
theorem reads_operations {l : Level} {operand : TokenReader Expr}
    (hoperand : ∀ c, Reads c operand (Derives (.operand l))) {k : Nat} {ts : List Token}
    {left : Expr} (hleft : Derives (.level l) ts left) :
    Reads c (operations l operand k left) fun us => Derives (.level l) (ts ++ us) := by
  induction k generalizing c ts left with
  | zero =>
    intro _ m a c' m' hrun
    cases hrun
  | succ k ih =>
    refine reads_peekKind_bind ?_
    split
    · next op hop =>
      have hne : c.kind ≠ .eof := Kind.ne_eof_of_turn (Level.turn_of_operator? hop) (by simp)
      refine reads_next_bind hne (reads_bind (hoperand _) fun us right c₁ hright _ => ?_)
      refine (ih (.binary hleft hop hright)).imp fun vs e he => ?_
      simpa using he
    · refine reads_pure ?_
      rwa [List.append_nil]

omit hsub in
/-- A level, given its operands. -/
theorem reads_level {l : Level} {ls : List Level}
    (hoperand : ∀ c, Reads c (levels n sub ls) (Derives (.operand l))) :
    Reads c (levels n sub (l :: ls)) (Derives (.level l)) := by
  refine reads_bind (hoperand c) fun ts left c₁ hleft _ => ?_
  exact reads_operations hoperand (.single hleft)

/-- The levels follow each other down to the tightest. -/
def Level.Descends : Level → List Level → Prop
  | l, [] => l.tighter? = none
  | l, k :: ls => l.tighter? = some k ∧ Descends k ls

theorem reads_levels {l : Level} {ls : List Level} (hls : l.Descends ls) :
    Reads c (levels n sub (l :: ls)) (Derives (.level l)) := by
  induction ls generalizing l c with
  | nil => exact reads_level fun _ => (reads_power hsub).imp fun _ _ => .tightest hls
  | cons k ls ih => exact reads_level fun _ => (ih hls.2).imp fun _ _ => .tighter hls.1

theorem reads_expression : Reads c (expression n sub) (Derives .expression) :=
  reads_levels hsub ⟨rfl, rfl, rfl, rfl, rfl, rfl, rfl⟩

/-! ### Sequences -/

theorem reads_item : Reads c (item n sub) (Derives .item) := by
  refine reads_here_bind ?_
  split
  · next name hk hsecond =>
    have hequal := Cursor.kind_advance hsecond
    refine reads_next_bind (by simp [hk]) (reads_next_bind (by simp [hequal]) ?_)
    refine reads_bind (reads_expression hsub) fun ts e c₁ he _ => reads_pure ?_
    rw [List.append_nil]
    exact .assignment hk hequal he
  · exact (reads_expression hsub).imp fun _ _ => .expressionItem

theorem reads_sequenceItems {k : Nat} (done : List Expr) :
    Reads c (sequenceItems n sub k done) fun ts es =>
      ∃ fs, Derives .items ts fs ∧ es = done.reverse ++ fs := by
  induction k generalizing c done with
  | zero =>
    intro _ m a c' m' hrun
    cases hrun
  | succ k ih =>
    have hend : Reads c (pure done.reverse) fun ts es =>
        ∃ fs, Derives .items ts fs ∧ es = done.reverse ++ fs :=
      reads_pure ⟨[], .noItems, by simp⟩
    refine reads_peekKind_bind ?_
    split
    · exact hend
    · exact hend
    · exact hend
    refine reads_accept_bind nofun (fun hsemi => ?_) fun _ => ?_
    · refine (ih done).imp ?_
      rintro ts _ ⟨fs, hfs, rfl⟩
      exact ⟨fs, .emptyItem hsemi hfs, rfl⟩
    · refine reads_bind (reads_item hsub) fun ts e c₁ he _ => ?_
      refine reads_accept_bind nofun (fun hsemi => ?_) fun _ => reads_pure ?_
      · refine (ih (e :: done)).imp ?_
        rintro us _ ⟨fs, hfs, rfl⟩
        exact ⟨e :: fs, .moreItems he hsemi hfs, by simp⟩
      · rw [List.append_nil]
        exact ⟨[e], .lastItem he, by simp⟩

theorem reads_goal (g : Goal) : Reads c (goal n sub g) (g.Derived c.token.position) := by
  cases g with
  | expression => exact reads_expression hsub
  | additive => exact reads_levels hsub ⟨rfl, rfl⟩
  | power => exact reads_power hsub
  | unary => exact reads_unary hsub
  | sequence =>
    refine reads_position_bind (reads_bind (reads_sequenceItems hsub []) ?_)
    rintro ts es c₁ ⟨fs, hfs, heq⟩ _
    obtain rfl : es = fs := heq
    refine reads_pure ?_
    rw [List.append_nil]
    exact ⟨es, hfs, rfl⟩

end

/-! ## Programs -/

theorem reads_run (n : Nat) (g : Goal) (c : Cursor) :
    Reads c (run n g) (g.Derived c.token.position) := by
  induction n generalizing g c with
  | zero =>
    intro _ m a c' m' hrun
    cases hrun
  | succ n ih => exact reads_goal ih g

/-- A program is a sequence with an end mark behind it. -/
theorem program_ok {n : Nat} {c c' : Cursor} {m m' : Memory} {e : Expr}
    (h : program n c m = (.ok e c', m')) :
    run n .sequence c m = (.ok e c', m') ∧ c'.kind = .eof := by
  have h : TokenReader.bind (run n .sequence) _ c m = (.ok e c', m') := h
  unfold TokenReader.bind at h
  split at h
  · next e₁ c₁ m₁ hrun =>
    have h : (if c₁.kind == .eof then pure e₁ else unexpected .endOfProgram : TokenReader Expr)
        c₁ m₁ = (.ok e c', m') := h
    split at h
    · next hk =>
      cases h
      exact ⟨hrun, by simpa using hk⟩
    · cases h
  · cases h
  · cases h

/-- The first end mark is the last token, if there is no other. -/
theorem eq_of_append_end {ts us vs : List Token} {e f : Token} (hts : ∀ t ∈ ts, t.kind ≠ .eof)
    (hf : f.kind = .eof) (h : ts ++ [e] = us ++ f :: vs) : ts = us ∧ e = f := by
  rcases List.eq_nil_or_concat vs with rfl | ⟨vs, g, rfl⟩
  · obtain ⟨hfront, hlast⟩ := List.append_inj' h rfl
    exact ⟨hfront, List.head_eq_of_cons_eq hlast⟩
  · rw [List.concat_eq_append, ← List.cons_append, ← List.append_assoc] at h
    have hfront := (List.append_inj' h rfl).1
    exact absurd hf (hts f (by simp [hfront]))

/-- **The parser is sound.** If the tokens before the only end mark make a tree, then the whole list
is derived from a program with just this tree, and the tree has the form of a program. -/
theorem parse_sound {ts : List Token} {e : Token} {ast : Expr} (hts : ∀ t ∈ ts, t.kind ≠ .eof)
    (he : e.kind = .eof) (h : Expr.parse (ts ++ [e]) = .ok ast) :
    Derives (.sequence .eof) (ts ++ [e]) ast ∧ ast.fits .any .body = true := by
  have hend : EndMarked (ts ++ [e]) := ⟨e, List.getLast?_concat .., he⟩
  have hderives : Derives (.sequence .eof) (ts ++ [e]) ast := by
    unfold Expr.parse Expr.parseWith at h
    split at h
    · next a c hprogram =>
      cases h
      obtain ⟨hrun, hk⟩ := program_ok (Prod.ext hprogram rfl)
      obtain ⟨us, hrest, ⟨f, hlast, -⟩, es, hes, rfl⟩ := reads_run _ .sequence _ hend _ _ _ _ hrun
      -- What is left starts with an end mark, so it is the last token.
      have hne : c.rest ≠ [] := fun hnil => by simp [hnil] at hlast
      obtain ⟨u, vs, hcons⟩ := List.exists_cons_of_ne_nil hne
      have hu : u.kind = .eof := by rwa [Cursor.kind, Cursor.token, hcons] at hk
      rw [hcons] at hrest
      obtain ⟨rfl, rfl⟩ := eq_of_append_end hts hu hrest
      have hfirst : (Cursor.start (ts ++ [e])).token = ts.headD e := by
        cases ts <;> rfl
      rw [hfirst]
      exact .sequence hes he
    · cases h
    · cases h
  exact ⟨hderives, hderives.isForm.1⟩

/-- The tokens of `LINESTRING (1 -2, a - 1) | f`, without the end mark. -/
def pipedLine : List Token :=
  [⟨.geometry .lineString, ⟨1, 1⟩, 10⟩, ⟨.symbol .lparen, ⟨1, 12⟩, 1⟩, ⟨.number 1, ⟨1, 13⟩, 1⟩,
    ⟨.symbol .minus, ⟨1, 15⟩, 1⟩, ⟨.number 2, ⟨1, 16⟩, 1⟩, ⟨.symbol .comma, ⟨1, 17⟩, 1⟩,
    ⟨.ident "a", ⟨1, 19⟩, 1⟩, ⟨.symbol .minus, ⟨1, 21⟩, 1⟩, ⟨.number 1, ⟨1, 23⟩, 1⟩,
    ⟨.symbol .rparen, ⟨1, 24⟩, 1⟩, ⟨.symbol .pipe, ⟨1, 26⟩, 1⟩, ⟨.ident "f", ⟨1, 28⟩, 1⟩]

/-- The tree of `pipedLine`: of the two signs, one belongs to a coordinate. -/
def pipedLineTree : Expr :=
  .seq [.binary (.pipe .apply)
    (.geometry .lineString (.elements
      [.pair (.number 1 ⟨1, 13⟩) (.number (-2) ⟨1, 15⟩),
        .value (.binary (.arith .sub) (.ident "a" ⟨1, 19⟩) (.number 1 ⟨1, 23⟩))]) ⟨1, 1⟩)
    (.ident "f" ⟨1, 28⟩)] ⟨1, 1⟩

theorem parse_sound_pipedLine :
    (∀ t ∈ pipedLine, t.kind ≠ .eof) ∧
      Expr.parse (pipedLine ++ [⟨.eof, ⟨1, 29⟩, 0⟩]) = .ok pipedLineTree ∧
      Derives (.sequence .eof) (pipedLine ++ [⟨.eof, ⟨1, 29⟩, 0⟩]) pipedLineTree := by
  have hts : ∀ t ∈ pipedLine, t.kind ≠ .eof := by decide
  have hend : EndMarked (pipedLine ++ [⟨.eof, ⟨1, 29⟩, 0⟩]) := ⟨_, List.getLast?_concat .., rfl⟩
  have hparse : Expr.parse (pipedLine ++ [⟨.eof, ⟨1, 29⟩, 0⟩]) = .ok pipedLineTree :=
    (parse_eq_parseWith_none hend).trans rfl
  exact ⟨hts, hparse, (parse_sound hts rfl hparse).1⟩

end GeoScript
