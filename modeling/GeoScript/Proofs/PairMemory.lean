import GeoScript.Proofs.Parallel

/-!
# Remembering pairs that were tried in vain

**Places.** A cursor in a token list is determined by its index alone (`Cursor.Within.eq`), so that
an index stands for the token there and for what precedes it.

**Unrolling.** Without a memory, how a reading ends does not depend on how often the recursion is
unrolled, if this is often enough. In particular a pair is tried in vain with one number of
unrollings if it is with another (`attempt_of_attempt`).

**Invariant (`Vain`).** At every index that is remembered, the plain parser, which remembers
nothing, tries a pair in vain, with any number of unrollings that suffices. It does not matter which
list or which parentheses the attempt was made for, nor whether the attempt around it was given up.

**Theorem (`parse_eq_plain`).** Parsing with a memory gives the same tree with the same places, or
the same error, as parsing without.
-/

namespace GeoScript

open Token (Kind)
open TokenReader Grammar

/-! ## Cursors in a token list -/

/-- The last token is an end mark. -/
def EndMarked (tokens : List Token) : Prop := ∃ e, tokens.getLast? = some e ∧ e.kind = .eof

namespace Cursor

/-- The cursor stands in front of a token of the list. -/
structure Within (tokens : List Token) (c : Cursor) : Prop where
  passed : ∃ ts, tokens = ts ++ c.rest ∧ ts.length = c.index ∧ ts.getLast? = c.previous
  nonempty : c.rest ≠ []

variable {tokens : List Token} {c d : Cursor}

theorem within_start (h : tokens ≠ []) : (start tokens).Within tokens :=
  ⟨⟨[], rfl, rfl, rfl⟩, h⟩

/-- An index determines what has been passed and what is to come. -/
theorem Within.eq_drop (hc : c.Within tokens) :
    c.previous = (tokens.take c.index).getLast? ∧ c.rest = tokens.drop c.index := by
  obtain ⟨⟨ts, hts, hlen, hlast⟩, -⟩ := hc
  rw [hts, ← hlen, List.take_left, List.drop_left]
  exact ⟨hlast.symm, rfl⟩

theorem Within.getElem? (hc : c.Within tokens) (k : Nat) :
    c.rest[k]? = tokens[c.index + k]? := by
  rw [hc.eq_drop.2, List.getElem?_drop]

theorem Within.token (hc : c.Within tokens) : tokens[c.index]? = some c.token := by
  have hfirst := hc.getElem? 0
  rw [Nat.add_zero] at hfirst
  obtain ⟨t, ts, hrest⟩ := List.exists_cons_of_ne_nil hc.nonempty
  rw [← hfirst, Cursor.token, hrest]
  rfl

/-- A cursor is determined by its index. -/
theorem Within.eq (hc : c.Within tokens) (hd : d.Within tokens) (h : c.index = d.index) :
    c = d := by
  obtain ⟨previous, rest, index⟩ := c
  obtain ⟨previous', rest', index'⟩ := d
  obtain rfl : index = index' := h
  obtain ⟨hprevious, hrest⟩ := hc.eq_drop
  obtain ⟨hprevious', hrest'⟩ := hd.eq_drop
  rw [mk.injEq]
  exact ⟨hprevious.trans hprevious'.symm, hrest.trans hrest'.symm, rfl⟩

/-- Another token follows one that is not an end mark. -/
theorem Within.exists_rest (hend : EndMarked tokens) (hc : c.Within tokens) (hk : c.kind ≠ .eof) :
    ∃ t u us, c.rest = t :: u :: us := by
  obtain ⟨⟨ts, hts, -, -⟩, hne⟩ := hc
  obtain ⟨e, hlast, he⟩ := hend
  match hrest : c.rest with
  | [] => exact absurd hrest hne
  | t :: u :: us => exact ⟨t, u, us, rfl⟩
  | [t] =>
    rw [hts, hrest, List.getLast?_concat] at hlast
    obtain rfl := Option.some.inj hlast
    refine absurd ?_ hk
    rw [kind, Cursor.token, hrest]
    exact he

/-- Going on never leads out of the list. -/
theorem Within.step (hc : c.Within tokens) : c.advance.Within tokens := by
  match hrest : c.rest with
  | [] => exact absurd hrest hc.nonempty
  | [t] =>
    have hadvance : c.advance = c := by rw [Cursor.advance, hrest]
    rw [hadvance]
    exact hc
  | t :: u :: us =>
    obtain ⟨⟨ts, hts, hlen, -⟩, -⟩ := hc
    have hadvance : c.advance = ⟨some t, u :: us, c.index + 1⟩ := by rw [Cursor.advance, hrest]
    rw [hadvance]
    refine ⟨⟨ts ++ [t], ?_, ?_, List.getLast?_concat ..⟩, List.cons_ne_nil _ _⟩
    · rw [hts, hrest, List.append_assoc]
      rfl
    · rw [List.length_append, hlen]
      rfl

theorem Within.advance (hend : EndMarked tokens) (hc : c.Within tokens) (hk : c.kind ≠ .eof) :
    c.advance.Within tokens ∧ c.advance.rest.length < c.rest.length := by
  obtain ⟨t, u, us, hrest⟩ := hc.exists_rest hend hk
  refine ⟨hc.step, ?_⟩
  rw [Cursor.advance, hrest]
  exact Nat.lt_succ_self _

end Cursor

/-! ## One list read twice -/

/-- Two readings of one token list, with memories that belong together. -/
def Parallel.twice {tokens : List Token} (hend : EndMarked tokens)
    (Recalls : Memory → Memory → Prop) : Parallel where
  Abreast _ c d := d = c ∧ c.Within tokens
  Recalls := Recalls
  place := id
  place' := id
  Blames := Eq
  Whole _ := True
  whole_succ _ := trivial
  nonempty h := h.2.nonempty
  kind h := .inl (h.1 ▸ rfl)
  assigns h _ := h.1 ▸ Iff.rfl
  sign h _ := h.1 ▸ rfl
  placed h _ := h.1 ▸ rfl
  unwanted _ h := h.1 ▸ rfl
  lacking _ h := h.1 ▸ rfl
  opens h hk := ⟨h.1 ▸ rfl, (h.2.advance hend (Token.Kind.ne_eof_of_turn hk nofun)).1⟩
  closes h hk := ⟨h.1 ▸ rfl, (h.2.advance hend (Token.Kind.ne_eof_of_turn hk nofun)).1⟩
  stays h hk := ⟨h.1 ▸ rfl, (h.2.advance hend (Token.Kind.ne_eof_of_turn hk nofun)).1⟩
  shorter h hk := (h.2.advance hend hk).2

section

variable {tokens : List Token} {hend : EndMarked tokens} {Recalls : Memory → Memory → Prop}

/-- Readings that belong together end in the same way. -/
theorem Parallel.Matches.twice_eq {α : Type} {view : View α α} (hview : ∀ a, view id a = a)
    {j left : Nat} {r s : Outcome α × Memory} (h : (twice hend Recalls).Matches j left view r s) :
    r.1 = s.1 ∧ r.1 ≠ .unfinished ∧ Recalls r.2 s.2 := by
  cases h with
  | ok hab hcd _ hm =>
    obtain rfl := (hview _).symm.trans (hab.trans (hview _))
    obtain rfl := hcd.1
    exact ⟨rfl, nofun, hm⟩
  | error hblames hm =>
    obtain rfl := hblames
    exact ⟨rfl, nofun, hm⟩

end

/-! ## Without a memory -/

section Plain

variable {tokens : List Token} (hend : EndMarked tokens)

/-- Two readings that remember nothing. -/
def Parallel.plain : Parallel := twice hend fun m m' => m = none ∧ m' = none

/-- Where nothing is remembered, a pair is tried every time. -/
theorem tryPair_of_fresh {n : Nat} {sub : Goal → TokenReader Expr} {c : Cursor} {m : Memory}
    (h : m.isFailed c.index = false) : tryPair n sub c m =
      match attempt (pairBeforeDelimiter n sub) c m with
      | (.ok none c, m) => (.ok none c, m.addFailed c.index)
      | outcome => outcome := by
  rw [tryPair, h]
  rfl

/-- Where neither reading remembers anything, attempts at pairs agree. -/
theorem Parallel.ready_plain {K : Parallel} (hnone : ∀ m m', K.Recalls m m' ↔ m = none ∧ m' = none)
    {most n n' : Nat} {sub sub' : Goal → TokenReader Expr} (h : K.Nested most n n' sub sub') :
    K.Ready most n n' sub sub' where
  toNested := h
  pair := by
    intro _ c d hcd hmost m m' hm
    obtain ⟨rfl, rfl⟩ := (hnone m m').1 hm
    rw [tryPair_of_fresh rfl, tryPair_of_fresh rfl]
    have htries := tries_attempt (h.agree_pairBeforeDelimiter hcd hmost).offers
    rcases htries none none hm with
      ⟨xy, xy', c', d', m₁, m₁', hp, hq, hrest⟩ | ⟨m₁, m₁', hp, hq, hm₁⟩
    · exact .inl ⟨xy, xy', c', d', m₁, m₁', by rw [hp], by rw [hq], hrest⟩
    · obtain ⟨rfl, rfl⟩ := (hnone _ _).1 hm₁
      exact .inr ⟨none, none, by rw [hp]; rfl, by rw [hq]; rfl, hm⟩

include hend in
/-- **A pair is tried in vain whatever the number of unrollings is.** -/
theorem attempt_of_attempt {c : Cursor} (hc : c.Within tokens) {n n' : Nat}
    (hn : c.rest.length ≤ n + 1) (hn' : c.rest.length ≤ n' + 1)
    (h : attempt (pairBeforeDelimiter (n + 1) (run n)) c none = (.ok none c, none)) :
    attempt (pairBeforeDelimiter (n' + 1) (run n')) c none = (.ok none c, none) := by
  have hnested : (Parallel.plain hend).Nested (c.rest.length - 1) (n + 1) (n' + 1) (run n)
      (run n') :=
    Parallel.nested_run (Parallel.ready_plain fun _ _ => Iff.rfl) (by omega) (by omega)
  have htries := Parallel.tries_attempt
    (hnested.agree_pairBeforeDelimiter (c := c) (j := 0) ⟨rfl, hc⟩ (by omega)).offers
  rcases htries none none ⟨rfl, rfl⟩ with
    ⟨xy, xy', c', d', m₁, m₁', hp, -⟩ | ⟨m₁, m₁', hp, hq, -, rfl⟩
  · rw [h] at hp
    cases hp
  · exact hq

end Plain

/-! ## With a memory -/

/-- At every place that is remembered, the plain parser tries a pair in vain. -/
def Vain (tokens : List Token) (m : Memory) : Prop :=
  ∀ c : Cursor, c.Within tokens → m.isFailed c.index = true → ∀ n, c.rest.length ≤ n + 1 →
    attempt (pairBeforeDelimiter (n + 1) (run n)) c none = (.ok none c, none)

theorem vain_empty (tokens : List Token) : Vain tokens (some ∅) := by
  intro c _ h
  simp [Memory.isFailed] at h

section

variable {tokens : List Token} (hend : EndMarked tokens)

include hend in
theorem Vain.addFailed {m : Memory} (hm : Vain tokens m) {c : Cursor} (hc : c.Within tokens)
    {n : Nat} (hn : c.rest.length ≤ n + 1)
    (h : attempt (pairBeforeDelimiter (n + 1) (run n)) c none = (.ok none c, none)) :
    Vain tokens (m.addFailed c.index) := by
  intro d hd hfailed n' hn'
  rcases Memory.isFailed_addFailed hfailed with hindex | hfailed
  · obtain rfl := hc.eq hd hindex
    exact attempt_of_attempt hend hc hn hn' h
  · exact hm d hd hfailed n' hn'

/-- A reading with a memory beside one without. -/
def Parallel.recalling : Parallel := twice hend fun m m' => Vain tokens m ∧ m' = none

/-- **Attempts at pairs agree.** A place that is remembered is not tried again, but there the plain
parser fails; another place is tried by both, and remembered if both fail. -/
theorem Parallel.ready_recalling {most n n' : Nat}
    (h : (recalling hend).Nested most (n + 1) (n' + 1) (run n) (run n')) :
    (recalling hend).Ready most (n + 1) (n' + 1) (run n) (run n') where
  toNested := h
  pair := by
    have hfuel' := h.fuel'
    rintro _ c d hcd hmost m m' ⟨hm, rfl⟩
    obtain ⟨rfl, hc⟩ := id hcd
    rw [tryPair_of_fresh (m := none) rfl]
    cases hfailed : m.isFailed d.index with
    | true =>
      have hplain := hm d hc hfailed n' (by omega)
      refine .inr ⟨m, none, ?_, by rw [hplain]; rfl, hm, rfl⟩
      rw [tryPair, hfailed]
      rfl
    | false =>
      rw [tryPair_of_fresh hfailed]
      have htries := tries_attempt (h.agree_pairBeforeDelimiter hcd hmost).offers
      rcases htries m none ⟨hm, rfl⟩ with
        ⟨xy, xy', c', d', m₁, m₁', hp, hq, hrest⟩ | ⟨m₁, m₁', hp, hq, hm₁, rfl⟩
      · exact .inl ⟨xy, xy', c', d', m₁, m₁', by rw [hp], by rw [hq], hrest⟩
      · refine .inr ⟨m₁.addFailed d.index, none, by rw [hp], by rw [hq]; rfl, ?_, rfl⟩
        exact hm₁.addFailed hend hc (by omega) hq

include hend in
/-- The two parsers end in the same way, and the plain one has remembered nothing. -/
theorem program_eq_plain {n n' : Nat} (hn : tokens.length ≤ n) (hn' : tokens.length ≤ n') :
    ∃ outcome m, outcome ≠ .unfinished ∧ program n (.start tokens) (some ∅) = (outcome, m) ∧
      program n' (.start tokens) none = (outcome, none) := by
  have hstart : (Cursor.start tokens).Within tokens := by
    obtain ⟨e, hlast, -⟩ := hend
    exact Cursor.within_start fun hnil => by simp [hnil] at hlast
  have hcd : (Parallel.recalling hend).Abreast 0 (.start tokens) (.start tokens) := ⟨rfl, hstart⟩
  have hagree := Parallel.agree_program (Parallel.ready_recalling hend) trivial hcd hn hn'
  obtain ⟨heq, hfinished, -, hnone⟩ :=
    (hagree (some ∅) none ⟨vain_empty tokens, rfl⟩).twice_eq Expr.placed_id
  exact ⟨_, _, hfinished, rfl, Prod.ext heq.symm hnone⟩

include hend in
theorem parse_eq_parseWith_none : Expr.parse tokens = Expr.parseWith none tokens := by
  obtain ⟨outcome, m, -, hwith, hwithout⟩ :=
    program_eq_plain hend (Nat.le_succ tokens.length) (Nat.le_succ tokens.length)
  rw [Expr.parse, Expr.parseWith, Expr.parseWith, hwith, hwithout]

include hend in
/-- **The memory changes nothing but the work.** However often the recursion is unrolled, if it is
no less often than there are tokens, the two parsers end in the same way, and neither runs out. -/
theorem parse_eq_plain : Expr.parse tokens = Expr.parseWith none tokens ∧
    ∀ n n', tokens.length ≤ n → tokens.length ≤ n' → ∃ outcome m, outcome ≠ .unfinished ∧
      program n (.start tokens) (some ∅) = (outcome, m) ∧
      program n' (.start tokens) none = (outcome, none) :=
  ⟨parse_eq_parseWith_none hend, fun _ _ hn hn' => program_eq_plain hend hn hn'⟩

end

/-- The tokens of `((a + 1))`, where a pair is tried in vain at both the second and the third. -/
def nestedSum : List Token :=
  [⟨.symbol .lparen, ⟨1, 1⟩, 1⟩, ⟨.symbol .lparen, ⟨1, 2⟩, 1⟩, ⟨.ident "a", ⟨1, 3⟩, 1⟩,
    ⟨.symbol .plus, ⟨1, 5⟩, 1⟩, ⟨.number 1, ⟨1, 7⟩, 1⟩, ⟨.symbol .rparen, ⟨1, 8⟩, 1⟩,
    ⟨.symbol .rparen, ⟨1, 9⟩, 1⟩, ⟨.eof, ⟨1, 10⟩, 0⟩]

theorem parse_eq_plain_nestedSum :
    EndMarked nestedSum ∧ Expr.parse nestedSum = Expr.parseWith none nestedSum ∧
      Expr.parse nestedSum = .ok (.seq
        [.binary (.arith .add) (.ident "a" ⟨1, 3⟩) (.number 1 ⟨1, 7⟩)] ⟨1, 1⟩) :=
  have hend : EndMarked nestedSum := ⟨⟨.eof, ⟨1, 10⟩, 0⟩, rfl, rfl⟩
  have heq := (parse_eq_plain hend).1
  ⟨hend, heq, heq.trans rfl⟩

end GeoScript
