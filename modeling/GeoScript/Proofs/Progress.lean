import GeoScript.Proofs.Soundness

/-!
# Progress within a token list

**Readers.** A reader *advances* from a cursor when it comes to an answer, when an answer that is no
error lies a number of tokens further on and still in front of a token of the list, and when it has
looked at the tokens of the list only: whatever is put behind the end mark, the reader ends as it
did (`TokenReader.Advances`). Attempts at pairs may give nothing, and then stay where they are
(`TokenReader.Attempts`).

**Theorem (`parser_progresses`).** In a token list whose last token is its only end mark every
nonterminal advances by one token or more, except for sequences, which may be empty, as long as
there are no more tokens to go than unrollings. A program that is read ends in front of the end
mark. No reader ever misses a number behind the sign of a coordinate.

**The measure** is the number of tokens to go. Two readings are compared, of the list and of the
list with more tokens behind it (`Parallel.extended`); that they stay abreast includes the bounds on
the tokens to go, so all the nonterminals are dealt with by the one induction of
`Parallel.nested_run`.
-/

namespace GeoScript

open Token (Kind)
open TokenReader Grammar

/-! ## Tokens behind the end mark -/

/-- The cursor in a list with more tokens behind. -/
def Cursor.extended (more : List Token) (c : Cursor) : Cursor := { c with rest := c.rest ++ more }

/-- The outcome in a list with more tokens behind. -/
def Outcome.extended {α : Type} (more : List Token) : Outcome α → Outcome α
  | .ok a c => .ok a (c.extended more)
  | .error e => .error e
  | .unfinished => .unfinished

namespace Cursor

variable {tokens more : List Token} {c : Cursor}

theorem Within.length_eq (hc : c.Within tokens) : c.index + c.rest.length = tokens.length := by
  obtain ⟨⟨ts, hts, hlen, -⟩, -⟩ := hc
  rw [hts, List.length_append, hlen]

theorem Within.length_pos (hc : c.Within tokens) : 0 < c.rest.length :=
  List.length_pos_iff.2 hc.nonempty

/-- The only end mark is the last token. -/
theorem Within.at_end {front : List Token} {e : Token} (hc : c.Within (front ++ [e]))
    (hfront : ∀ t ∈ front, t.kind ≠ .eof) (hk : c.kind = .eof) :
    c.index = front.length ∧ c.rest = [e] := by
  obtain ⟨⟨ts, hts, hlen, -⟩, hne⟩ := hc
  obtain ⟨t, rest, hrest⟩ := List.exists_cons_of_ne_nil hne
  rw [Cursor.kind, Cursor.token, hrest] at hk
  rw [hrest] at hts ⊢
  obtain ⟨rfl, rfl⟩ := eq_of_append_end hfront hk hts
  exact ⟨hlen.symm, (List.append_cancel_left hts).symm⟩

theorem token_extended (hne : c.rest ≠ []) : (c.extended more).token = c.token := by
  obtain ⟨t, rest, hrest⟩ := List.exists_cons_of_ne_nil hne
  rw [token, token, extended, hrest]
  rfl

theorem kind_extended (hne : c.rest ≠ []) : (c.extended more).kind = c.kind :=
  congrArg Token.kind (token_extended hne)

/-- In front of a token that is not the end mark, the cursors of both lists move on. -/
theorem Within.step_extended (hend : EndMarked tokens) (hc : c.Within tokens)
    (hk : c.kind ≠ .eof) :
    c.advance.Within tokens ∧ (c.extended more).advance = c.advance.extended more := by
  obtain ⟨t, u, us, hrest⟩ := hc.exists_rest hend hk
  refine ⟨hc.step, ?_⟩
  simp [Cursor.advance, extended, hrest]

end Cursor

/-! ## Readers that advance -/

namespace TokenReader

variable {α : Type}

/-- From the cursor the reader comes to an answer by the tokens of the list alone. It ends at least
so many tokens further on and in front of a token of the list, or it fails, but never for want of a
number behind a sign. -/
structure Advances (tokens : List Token) (c : Cursor) (least : Nat) (p : TokenReader α) : Prop where
  finished : ∀ m, (p c m).1 ≠ .unfinished
  ahead : ∀ m a d, (p c m).1 = .ok a d → d.Within tokens ∧ c.index + least ≤ d.index
  numbered : ∀ m err, (p c m).1 = .error err → err.fault ≠ .numberAfterSign
  inside : ∀ m more, p (c.extended more) m = ((p c m).1.extended more, (p c m).2)

/-- From the cursor the reader gives something and ends further on, or gives nothing and stays. It
does so by the tokens of the list alone. -/
structure Attempts (tokens : List Token) (c : Cursor) (p : TokenReader (Option α)) : Prop where
  ends : ∀ m, (∃ a d, (p c m).1 = .ok (some a) d ∧ d.Within tokens ∧ c.index < d.index) ∨
    (p c m).1 = .ok none c
  inside : ∀ m more, p (c.extended more) m = ((p c m).1.extended more, (p c m).2)

end TokenReader

/-- From the cursor the nonterminals of the grammar advance, with `n` unrollings, where `sub` are
the parsers of those that they refer back to. -/
structure Grammar.Progress (tokens : List Token) (n : Nat) (sub : Goal → TokenReader Expr)
    (c : Cursor) : Prop where
  item : (Grammar.item n sub).Advances tokens c 1
  levels (ls : List Level) : (Grammar.levels n sub ls).Advances tokens c 1
  power : (Grammar.power n sub).Advances tokens c 1
  unary : (Grammar.unary n sub).Advances tokens c 1
  postfixed : (Grammar.postfixed n sub).Advances tokens c 1
  primary : (Grammar.primary n sub).Advances tokens c 1
  coord : (Grammar.coord n sub).Advances tokens c 1
  pair : (Grammar.pair n sub).Advances tokens c 1
  tryPair : (Grammar.tryPair n sub).Attempts tokens c
  tryParenthesizedPair : (Grammar.tryParenthesizedPair n sub).Attempts tokens c
  /-- An element is read behind a parenthesis. -/
  element : c.rest.length < n → (Grammar.element n sub).Advances tokens c 1
  /-- The items of a list may be anything that does not go back. -/
  list {α : Type} (item : TokenReader α) (allowEmpty : Bool) :
    (∀ d : Cursor, d.Within tokens → c.index < d.index → item.Advances tokens d 0) →
      (TokenReader.list n allowEmpty item).Advances tokens c 1
  arguments : (Grammar.arguments n sub).Advances tokens c 1
  ring : (Grammar.ring n sub).Advances tokens c 1
  body (kind : Geometry.Kind) : (Grammar.body n sub kind).Advances tokens c 1
  geometry (kind : Geometry.Kind) :
    c.kind = .geometry kind → (Grammar.geometry n sub kind).Advances tokens c 1
  function : (Grammar.function n sub).Advances tokens c 1
  generate : (Grammar.generate sub).Advances tokens c 1
  branch : (Grammar.branch n sub).Advances tokens c 1
  condition : (Grammar.condition n sub).Advances tokens c 1
  parenthesized :
    c.kind = .symbol .lparen → (Grammar.parenthesized n sub).Advances tokens c 1
  sequence : (Grammar.sequence n sub).Advances tokens c 0

/-! ## A list beside a longer one -/

namespace Parallel

variable {tokens : List Token} {hend : EndMarked tokens}

/-- Readings of a list and of one with more tokens behind it. -/
def extended (hend : EndMarked tokens) (more : List Token) : Parallel where
  Abreast _ c d := c.Within tokens ∧ d = c.extended more
  Recalls := Eq
  place := id
  place' := id
  Blames err err' := err' = err ∧ err.fault ≠ .numberAfterSign
  Whole _ := True
  whole_succ _ := trivial
  nonempty h := h.1.nonempty
  kind h := .inl (h.2 ▸ Cursor.kind_extended h.1.nonempty)
  assigns := by
    intro _ c d h hk
    obtain ⟨hc, rfl⟩ := h
    obtain ⟨t, u, us, hrest⟩ := hc.exists_rest hend hk
    simp [Cursor.secondKind?, Cursor.extended, hrest]
  sign := by
    intro _ c d h hk
    obtain ⟨hc, rfl⟩ := h
    have hne : c.kind ≠ .eof := by rcases hk with hk | hk <;> simp [hk]
    obtain ⟨t, u, us, hrest⟩ := hc.exists_rest hend hne
    simp [Cursor.atCoordinateSign, Cursor.extended, Cursor.token, hrest]
  placed h _ := congrArg Token.position (h.2 ▸ Cursor.token_extended h.1.nonempty)
  unwanted := by
    intro _ c d wanted h
    obtain ⟨hc, rfl⟩ := h
    rw [Cursor.kind_extended hc.nonempty, Cursor.token_extended hc.nonempty]
    exact ⟨rfl, nofun⟩
  lacking := by
    intro _ c d wanted h
    obtain ⟨hc, rfl⟩ := h
    rw [Cursor.kind_extended hc.nonempty, Cursor.token_extended hc.nonempty]
    exact ⟨rfl, nofun⟩
  opens h hk := h.2 ▸ h.1.step_extended hend (Kind.ne_eof_of_turn hk nofun)
  closes h hk := h.2 ▸ h.1.step_extended hend (Kind.ne_eof_of_turn hk nofun)
  stays h hk := h.2 ▸ h.1.step_extended hend (Kind.ne_eof_of_turn hk nofun)
  shorter h hk := (h.1.advance hend hk).2

section

variable {more : List Token} {most n n' : Nat} {sub sub' : Goal → TokenReader Expr}

/-- The same pairs have been tried in vain in both lists, so attempts at pairs agree. -/
theorem ready_extended (h : (extended hend more).Nested most n n' sub sub') :
    (extended hend more).Ready most n n' sub sub' where
  toNested := h
  pair := by
    intro _ c d hcd hmost m m' hm
    obtain ⟨hc, rfl⟩ := id hcd
    subst hm
    cases hfailed : m.isFailed c.index with
    | true =>
      -- Both cursors have the same index, and the same places are remembered.
      have hfailed' : m.isFailed (c.extended more).index = true := hfailed
      refine .inr ⟨m, m, ?_, ?_, rfl⟩
      · rw [tryPair, if_pos hfailed]
      · rw [tryPair, if_pos hfailed']
    | false =>
      rw [tryPair_of_fresh hfailed, tryPair_of_fresh (c := c.extended more) hfailed]
      have htries := tries_attempt (h.agree_pairBeforeDelimiter hcd hmost).offers
      rcases htries m m rfl with
        ⟨xy, xy', c', d', m₁, m₁', hp, hq, hrest⟩ | ⟨m₁, _, hp, hq, rfl⟩
      · exact .inl ⟨xy, xy', c', d', m₁, m₁', by rw [hp], by rw [hq], hrest⟩
      · exact .inr ⟨m₁.addFailed c.index, m₁.addFailed c.index, by rw [hp], by rw [hq]; rfl, rfl⟩

/-- What two readings that end alike have in common with a single one. -/
theorem Matches.extended_cases {α : Type} {view : View α α} (hview : ∀ a, view id a = a)
    {j left : Nat} {r s : Outcome α × Memory} (h : (extended hend more).Matches j left view r s) :
    s = (r.1.extended more, r.2) ∧ r.1 ≠ .unfinished ∧
      (∀ a d, r.1 = .ok a d → d.Within tokens ∧ d.rest.length ≤ left) ∧
      ∀ err, r.1 = .error err → err.fault ≠ .numberAfterSign := by
  cases h with
  | @ok a b c d m m' hab hcd hleft hm =>
    obtain ⟨hc, rfl⟩ := hcd
    obtain rfl := hm
    obtain rfl : b = a := (hview b).symm.trans (hab.trans (hview a))
    refine ⟨rfl, nofun, fun a' d hr => ?_, fun err hr => ?_⟩
    · cases hr
      exact ⟨hc, hleft⟩
    · cases hr
  | @error err err' m m' hblames hm =>
    obtain ⟨rfl, hfault⟩ := hblames
    obtain rfl := hm
    refine ⟨rfl, nofun, fun a d hr => ?_, fun err' hr => ?_⟩
    · cases hr
    · cases hr
      exact hfault

end

end Parallel

/-! ### Agreement and progress -/

namespace View

theorem pair_id (xy : Expr × Expr) : View.pair id xy = xy :=
  Prod.ext (Expr.placed_id xy.1) (Expr.placed_id xy.2)

theorem list_id {α : Type} {view : View α α} (hview : ∀ a, view id a = a) (as : List α) :
    View.list view id as = as :=
  List.map_id'' hview as

end View

namespace Parallel

section

variable {tokens : List Token} (hend : EndMarked tokens) {α : Type} {c : Cursor} {least : Nat}

/-- A reader that agrees with itself, whatever is put behind the end mark, advances. -/
theorem advances_of_agree {p : TokenReader α} {view : View α α} (hview : ∀ a, view id a = a)
    (hc : c.Within tokens) (h : ∀ more, (extended hend more).Agree 0 c (c.extended more)
      (c.rest.length - least) view p p) : p.Advances tokens c least := by
  have hcases := fun m more => (h more m m rfl).extended_cases hview
  refine ⟨fun m => (hcases m []).2.1, fun m a d hok => ?_, fun m => (hcases m []).2.2.2,
    fun m more => (hcases m more).1⟩
  obtain ⟨hd, hle⟩ := (hcases m []).2.2.1 a d hok
  -- Some token is left in the end, so no fewer than `least` tokens have been passed.
  have hpos := hd.length_pos
  have hlen := hc.length_eq
  have hlen' := hd.length_eq
  exact ⟨hd, by omega⟩

theorem agree_of_advances {p : TokenReader α} (hc : c.Within tokens)
    (h : p.Advances tokens c 0) (j : Nat) (more : List Token) :
    (extended hend more).Agree j c (c.extended more) c.rest.length View.exact p p := by
  intro m m' hm
  subst hm
  rw [h.inside m more]
  cases hr : p c m with
  | mk outcome m' =>
    cases outcome with
    | ok a d =>
      obtain ⟨hd, hle⟩ := h.ahead m a d (by rw [hr])
      have hlen := hc.length_eq
      have hlen' := hd.length_eq
      exact .ok rfl ⟨hd, rfl⟩ (by omega) rfl
    | error err => exact .error ⟨rfl, h.numbered m err (by rw [hr])⟩ rfl
    | unfinished => exact absurd (by rw [hr]) (h.finished m)

theorem attempts_of_tries {p : TokenReader (Option (Expr × Expr))} (hc : c.Within tokens)
    (h : ∀ more, (extended hend more).Tries 0 c (c.extended more) (c.rest.length - 1) View.pair
      p p) : p.Attempts tokens c := by
  refine ⟨fun m => ?_, fun m more => ?_⟩
  · rcases h [] m m rfl with ⟨xy, xy', d, d', m₁, m₁', hp, -, -, hd, hle, -⟩ | ⟨m₁, m₁', hp, -⟩
    · have hpos := hd.1.length_pos
      have hlen := hc.length_eq
      have hlen' := hd.1.length_eq
      exact .inl ⟨xy, d, by rw [hp], hd.1, by omega⟩
    · exact .inr (by rw [hp])
  · rcases h more m m rfl with
      ⟨xy, xy', d, d', m₁, m₁', hp, hq, hxy, hd, -, hm⟩ | ⟨m₁, m₁', hp, hq, hm⟩
    · obtain rfl : xy' = xy := (View.pair_id xy').symm.trans (hxy.trans (View.pair_id xy))
      obtain rfl := hd.2
      obtain rfl := hm
      rw [hp, hq]
      rfl
    · obtain rfl := hm
      rw [hp, hq]
      rfl

end

end Parallel

/-! ## The grammar -/

open Parallel

section

variable {tokens : List Token} (hend : EndMarked tokens)
include hend

/-- A list advances if its items do not go back. -/
theorem advances_list {α : Type} {c : Cursor} (hc : c.Within tokens) {n : Nat}
    (hn : c.rest.length ≤ n) {item : TokenReader α}
    (hitem : ∀ d : Cursor, d.Within tokens → c.index < d.index → item.Advances tokens d 0)
    (allowEmpty : Bool) : (list n allowEmpty item).Advances tokens c 1 := by
  have hpos := hc.length_pos
  have hlen := hc.length_eq
  have hview : ∀ as : List α, View.list View.exact id as = as := View.list_id fun _ => rfl
  refine advances_of_agree hend hview hc fun more => ?_
  have hitems : ∀ d d', (extended hend more).Abreast 1 d d' → d.rest.length ≤ c.rest.length - 1 →
      (extended hend more).Agree 1 d d' d.rest.length View.exact item item := by
    intro d d' hdd' hle
    obtain ⟨hd, rfl⟩ := hdd'
    have hlen' := hd.length_eq
    exact agree_of_advances hend hd (hitem d hd (by omega)) 1 more
  have hcd : (extended hend more).Abreast 0 c (c.extended more) := ⟨hc, rfl⟩
  exact agree_list hitems hcd (by omega) (by omega) (by omega) allowEmpty

/-- **The nonterminals advance** where there are no more tokens to go than unrollings. -/
theorem grammar_progress {k : Nat} {c : Cursor} (hc : c.Within tokens)
    (hk : c.rest.length ≤ k + 1) : Grammar.Progress tokens (k + 1) (run k) c := by
  have hready : ∀ more, (extended hend more).Ready k (k + 1) (k + 1) (run k) (run k) := fun more =>
    ready_extended (nested_run ready_extended (Nat.le_refl k) (Nat.le_refl k))
  have hcd : ∀ more, (extended hend more).Abreast 0 c (c.extended more) := fun more => ⟨hc, rfl⟩
  have hexpr : ∀ {p : TokenReader Expr}, (∀ more, (extended hend more).Agree 0 c (c.extended more)
      (c.rest.length - 1) Expr.placed p p) → p.Advances tokens c 1 :=
    advances_of_agree hend Expr.placed_id hc
  exact {
    item := hexpr fun more => (hready more).agree_item (hcd more) hk
    levels := fun ls => hexpr fun more => (hready more).agree_levels ls (hcd more) hk
    power := hexpr fun more => (hready more).agree_power (hcd more) hk
    unary := hexpr fun more => (hready more).agree_unary (hcd more) hk
    postfixed := hexpr fun more => (hready more).agree_postfixed (hcd more) hk
    primary := hexpr fun more => (hready more).agree_primary (hcd more) hk
    parenthesized := fun hkind =>
      hexpr fun more => (hready more).agree_parenthesized (hcd more) hk hkind
    geometry := fun kind hkind =>
      hexpr fun more => (hready more).agree_geometry (hcd more) hk hkind
    function := hexpr fun more => (hready more).agree_function (hcd more) hk
    generate := hexpr fun more => (hready more).agree_generate (hcd more) hk
    condition := hexpr fun more => (hready more).agree_condition (hcd more) hk
    branch := hexpr fun more => (hready more).agree_branch (hcd more) hk
    coord := hexpr fun more => (hready more).agree_coord (hcd more) hk
    pair := advances_of_agree hend View.pair_id hc fun more =>
      (hready more).agree_pair (hcd more) hk
    tryPair := attempts_of_tries hend hc fun more => (hready more).pair (hcd more) hk
    tryParenthesizedPair :=
      attempts_of_tries hend hc fun more => (hready more).tries_parenthesizedPair (hcd more) hk
    element := fun hlt => advances_of_agree hend Element.placed_id hc fun more =>
      (hready more).agree_element (hcd more) (Nat.le_of_lt_succ hlt)
    list := fun item allowEmpty hitem => advances_list hend hc hk hitem allowEmpty
    arguments := advances_of_agree hend (View.list_id Expr.placed_id) hc fun more =>
      (hready more).agree_arguments (hcd more) hk
    ring := advances_of_agree hend (View.list_id Element.placed_id) hc fun more =>
      (hready more).agree_elements (hcd more) hk false
    body := fun kind => advances_of_agree hend Body.placed_id hc fun more =>
      (hready more).agree_body (hcd more) hk kind
    sequence := advances_of_agree hend Expr.placed_id hc fun more =>
      (hready more).agree_sequence trivial (hcd more) hk }

theorem advances_program (hne : tokens ≠ []) {n : Nat} (hn : tokens.length ≤ n) :
    (program n).Advances tokens (.start tokens) 0 := by
  have hc := Cursor.within_start hne
  have hcd : ∀ more, (extended hend more).Abreast 0 (.start tokens)
      ((Cursor.start tokens).extended more) := fun more => ⟨hc, rfl⟩
  exact advances_of_agree hend Expr.placed_id hc fun more =>
    agree_program ready_extended trivial (hcd more) hn hn

end

/-! ## The theorem -/

/-- **The parser makes progress and stays within its tokens.** A cursor within the list has a token
in front of it, and no step leads out; the nonterminals advance from there; and a program that is
read is read to its end mark. -/
theorem parser_progresses {front : List Token} {e : Token} (he : e.kind = .eof)
    (hfront : ∀ t ∈ front, t.kind ≠ .eof) :
    let tokens := front ++ [e]
    (Cursor.start tokens).Within tokens ∧
    (∀ c : Cursor, c.Within tokens →
      tokens[c.index]? = some c.token ∧ c.index ≤ front.length ∧ c.advance.Within tokens) ∧
    (∀ (n : Nat) (c : Cursor), c.Within tokens → c.rest.length ≤ n + 1 →
      Grammar.Progress tokens (n + 1) (run n) c) ∧
    (∀ n, tokens.length ≤ n → (program n).Advances tokens (.start tokens) 0 ∧
      ∀ m a d, (program n (.start tokens) m).1 = .ok a d →
        d.index = front.length ∧ d.rest = [e]) ∧
    ∀ m err, Expr.parseWith m tokens = .error err → err.fault ≠ .numberAfterSign := by
  intro tokens
  have hend : EndMarked tokens := ⟨e, List.getLast?_concat .., he⟩
  have hne : tokens ≠ [] := by simp [tokens]
  have hprogram := fun {n} (hn : tokens.length ≤ n) => advances_program hend hne hn
  refine ⟨Cursor.within_start hne, fun c hc => ⟨hc.token, ?_, hc.step⟩,
    fun n c hc hn => grammar_progress hend hc hn,
    fun n hn => ⟨hprogram hn, fun m a d hok => ?_⟩, fun m err herr => ?_⟩
  · have hlen := hc.length_eq
    have hpos := hc.length_pos
    rw [List.length_append, List.length_singleton] at hlen
    omega
  · obtain ⟨hd, -⟩ := (hprogram hn).ahead m a d hok
    exact hd.at_end hfront (program_ok (Prod.ext hok rfl)).2
  · rw [Expr.parseWith] at herr
    cases hr : (program (tokens.length + 1) (.start tokens) m).1 with
    | ok a d =>
      rw [hr] at herr
      cases herr
    | error err' =>
      rw [hr] at herr
      cases herr
      exact (hprogram (Nat.le_succ _)).numbered m err hr
    | unfinished => exact absurd hr ((hprogram (Nat.le_succ _)).finished m)

/-- The tokens of `(1 -2); (a + 1)`, where a pair is tried in vain behind the second parenthesis. -/
def pointThenSum : List Token :=
  [⟨.symbol .lparen, ⟨1, 1⟩, 1⟩, ⟨.number 1, ⟨1, 2⟩, 1⟩, ⟨.symbol .minus, ⟨1, 4⟩, 1⟩,
    ⟨.number 2, ⟨1, 5⟩, 1⟩, ⟨.symbol .rparen, ⟨1, 6⟩, 1⟩, ⟨.symbol .semicolon, ⟨1, 7⟩, 1⟩,
    ⟨.symbol .lparen, ⟨1, 9⟩, 1⟩, ⟨.ident "a", ⟨1, 10⟩, 1⟩, ⟨.symbol .plus, ⟨1, 12⟩, 1⟩,
    ⟨.number 1, ⟨1, 14⟩, 1⟩, ⟨.symbol .rparen, ⟨1, 15⟩, 1⟩]

/-- The program is read to its end, a pair is tried in vain without going on, and without its last
two tokens the program is an error. -/
theorem parser_progresses_pointThenSum :
    let e : Token := ⟨.eof, ⟨1, 16⟩, 0⟩
    let tokens := pointThenSum ++ [e]
    let cut := pointThenSum.take 9
    let c : Cursor := ⟨some ⟨.symbol .semicolon, ⟨1, 7⟩, 1⟩, tokens.drop 6, 6⟩
    e.kind = .eof ∧ (∀ t ∈ pointThenSum, t.kind ≠ .eof) ∧ (∀ t ∈ cut, t.kind ≠ .eof) ∧
    (c.Within tokens ∧ tokens[c.index]? = some c.token) ∧
    (c.rest.length ≤ 5 + 1 ∧ Grammar.Progress tokens (5 + 1) (run 5) c ∧
      (tryParenthesizedPair (5 + 1) (run 5) c none).1 = .ok none c) ∧
    (tokens.length ≤ 12 ∧ ∃ a d, (program 12 (.start tokens) none).1 = .ok a d ∧
      d.index = 11 ∧ d.rest = [e]) ∧
    ∃ err, Expr.parseWith none (cut ++ [e]) = .error err ∧ err.fault ≠ .numberAfterSign := by
  intro e tokens cut c
  have hfront : ∀ t ∈ pointThenSum, t.kind ≠ .eof := by simp [pointThenSum]
  have hcut : ∀ t ∈ cut, t.kind ≠ .eof := fun t ht => hfront t (List.mem_of_mem_take ht)
  have hc : c.Within tokens := ⟨⟨tokens.take 6, rfl, rfl, rfl⟩, nofun⟩
  have he : e.kind = .eof := rfl
  have hread := parser_progresses he hfront
  have hfailed := parser_progresses he hcut
  obtain ⟨-, htokens, hgrammar, hprogram, -⟩ := hread
  obtain ⟨-, -, -, -, herror⟩ := hfailed
  have hle : c.rest.length ≤ 5 + 1 := Nat.le_refl 6
  have hlen : tokens.length ≤ 12 := Nat.le_refl 12
  exact ⟨rfl, hfront, hcut, ⟨hc, (htokens c hc).1⟩, ⟨hle, hgrammar 5 c hc hle, rfl⟩,
    ⟨hlen, _, _, rfl, (hprogram 12 hlen).2 none _ _ rfl⟩, _, rfl, herror none _ rfl⟩

end GeoScript
