import GeoScript.Proofs.Layout
import GeoScript.Proofs.NewLine
import GeoScript.Proofs.Soundness

/-!
# Joined texts

**Joining.** Two texts are joined by a semicolon on a line of its own.

**The first text** is read beside itself, once with its end mark and once with the semicolon and the
second text behind it (`Parallel.inFront`). Brackets are counted: in a text that makes a program
none is open in the end, so nothing but the outermost sequence sees what follows. Where that ends in
the first reading, it passes the semicolon in the second.

**The second text** is read beside itself as well, once on its own and once further down
(`Parallel.below`). Its first token does not touch the semicolon.

**Theorem (`parse_joined`).** The joined text makes a program of the items of both texts. Those of
the first keep their places, and those of the second are further down.
-/

namespace GeoScript

open Token (Kind)
open TokenReader Grammar

/-! ## One step of a sequence -/

/-- Where a sequence ends. -/
def Token.Kind.endsSequence : Kind → Bool
  | .symbol .rparen | .symbol .rbrace | .eof => true
  | _ => false

theorem accept_bind {β : Type} (k : Kind) (f : Bool → TokenReader β) (c : Cursor) (m : Memory) :
    (accept k >>= f) c m = if c.kind = k then f true c.advance m else f false c m := by
  show TokenReader.bind (accept k) f c m = _
  simp only [TokenReader.bind, accept, beq_iff_eq]
  split_ifs <;> rfl

section Items

variable {n : Nat} {sub : Goal → TokenReader Expr}

/-- One step of a sequence. -/
theorem sequenceItems_succ (k : Nat) (done : List Expr) (c : Cursor) (m : Memory) :
    sequenceItems n sub (k + 1) done c m =
      if c.kind.endsSequence then (.ok done.reverse c, m)
      else if c.kind = .symbol .semicolon then sequenceItems n sub k done c.advance m
      else match item n sub c m with
        | (.ok e c, m) =>
          if c.kind = .symbol .semicolon then sequenceItems n sub k (e :: done) c.advance m
          else (.ok (e :: done).reverse c, m)
        | (.error e, m) => (.error e, m)
        | (.unfinished, m) => (.unfinished, m) := by
  have hends : ∀ (kind : Kind) (step : TokenReader (List Expr)),
      (match kind with
        | .symbol .rparen | .symbol .rbrace | .eof => pure done.reverse
        | _ => step) = if kind.endsSequence then pure done.reverse else step := by
    intro kind step
    cases kind with
    | symbol s => cases s <;> rfl
    | _ => rfl
  rw [sequenceItems]
  refine (congrFun (congrFun (hends c.kind _) c) m).trans ?_
  by_cases hk : c.kind.endsSequence = true
  · rw [if_pos hk, if_pos hk]
    rfl
  rw [if_neg hk, if_neg hk, accept_bind]
  by_cases hsemi : c.kind = .symbol .semicolon
  · rw [if_pos hsemi, if_pos hsemi]
    rfl
  rw [if_neg hsemi, if_neg hsemi]
  show TokenReader.bind (item n sub) _ c m = _
  unfold TokenReader.bind
  rcases item n sub c m with ⟨_ | _ | _, m₁⟩
  · exact accept_bind ..
  · rfl
  · rfl

/-- What has been read before comes first. -/
theorem sequenceItems_append {k : Nat} {done es : List Expr} {c c' : Cursor} {m m' : Memory}
    (h : sequenceItems n sub k done c m = (.ok es c', m')) (before : List Expr) :
    sequenceItems n sub k (done ++ before) c m = (.ok (before.reverse ++ es) c', m') := by
  induction k generalizing done c m with
  | zero => cases h
  | succ k ih =>
    rw [sequenceItems_succ] at h ⊢
    split_ifs at h ⊢
    · cases h
      rw [List.reverse_append]
    · exact ih h
    · split at h
      · next e c₁ m₁ hitem =>
        split_ifs at h ⊢
        · exact ih h
        · cases h
          rw [← List.cons_append, List.reverse_append]
      · cases h
      · cases h

end Items

/-! ## A list and a longer one -/

/-- How many more brackets are open than before. -/
def Token.Turn.rise : Turn → Int
  | opens => 1
  | closes => -1
  | stays | ends => 0

theorem Token.Turn.add_rise_closes (j : Nat) : ((j + 1 : Nat) : Int) + closes.rise = j := by
  simp only [rise]
  omega

/-- By how many brackets tokens open more than they close. -/
def excess : List Token → Int
  | [] => 0
  | t :: ts => t.kind.turn.rise + excess ts

theorem excess_concat (ts : List Token) (t : Token) :
    excess (ts ++ [t]) = excess ts + t.kind.turn.rise := by
  induction ts with
  | nil => simp [excess]
  | cons u ts ih => rw [List.cons_append, excess, ih, excess, Int.add_assoc]

/-- The cursor behind the tokens that have been passed. -/
def Cursor.behind (passed rest : List Token) : Cursor := ⟨passed.getLast?, rest, passed.length⟩

theorem Cursor.advance_behind (passed rest : List Token) (t u : Token) (more : List Token) :
    (behind passed (t :: (rest ++ u :: more))).advance =
      behind (passed ++ [t]) (rest ++ u :: more) := by
  cases rest <;> simp [advance, behind]

namespace Parallel

variable {front more : List Token} {e t : Token}

/-- The cursors have passed the same tokens of `front`, which is followed by the end mark in the one
list and by another token in the other. -/
def InFront (front : List Token) (e t : Token) (more : List Token) (j : Nat) (c d : Cursor) :
    Prop :=
  ∃ passed rest, front = passed ++ rest ∧ c = .behind passed (rest ++ [e]) ∧
    d = .behind passed (rest ++ t :: more) ∧ excess passed = j

section

variable {j : Nat} {c d : Cursor}

/-- In front of a token that is not the end mark, both cursors move on. -/
theorem InFront.step (he : e.kind = .eof) (h : InFront front e t more j c d) (hk : c.kind ≠ .eof) :
    ∃ passed u rest, front = passed ++ u :: rest ∧ c = .behind passed (u :: (rest ++ [e])) ∧
      d = .behind passed (u :: (rest ++ t :: more)) ∧ excess passed = j ∧
      ∀ i : Nat, excess (passed ++ [u]) = i → InFront front e t more i c.advance d.advance := by
  obtain ⟨passed, rest, hfront, rfl, rfl, hj⟩ := h
  cases rest with
  | nil => exact absurd he hk
  | cons u rest =>
    refine ⟨passed, u, rest, hfront, rfl, rfl, hj, fun i hi => ?_⟩
    refine ⟨passed ++ [u], rest, by rw [hfront]; simp, ?_, ?_, hi⟩
    · exact Cursor.advance_behind ..
    · exact Cursor.advance_behind ..

theorem InFront.advance (he : e.kind = .eof) (h : InFront front e t more j c d) {i : Nat}
    {turn : Token.Turn} (hk : c.kind.turn = turn) (hturn : turn ≠ .ends)
    (hi : (j : Int) + turn.rise = i) : InFront front e t more i c.advance d.advance := by
  obtain ⟨passed, u, rest, -, hc, -, hj, hstep⟩ := h.step he (Kind.ne_eof_of_turn hk hturn)
  refine hstep i ?_
  have hu : u.kind.turn = turn := by rwa [hc] at hk
  rw [excess_concat, hj, hu, hi]

end

/-- Two readings of lists that begin alike, as far as that goes: the one ends there, the other goes
on with a semicolon, or ends as well. -/
def inFront (more : List Token) (he : e.kind = .eof)
    (ht : t.kind = .eof ∨ t.kind = .symbol .semicolon ∧ excess front = 0)
    (place' : Position → Position) (hplace : ∀ u ∈ front, place' u.position = u.position)
    (hend : t.kind = .eof → place' t.position = e.position) : Parallel where
  Abreast := InFront front e t more
  Recalls m m' := m = none ∧ m' = none
  place := id
  place' := place'
  Blames _ _ := True
  Whole j := t.kind = .eof ∨ 0 < j
  whole_succ j := .inr (Nat.succ_pos j)
  nonempty := by
    rintro j c d ⟨passed, rest, -, rfl, -⟩
    simp [Cursor.behind]
  kind := by
    rintro j c d ⟨passed, rest, rfl, rfl, rfl, hj⟩
    cases rest with
    | cons u rest => exact .inl rfl
    | nil =>
      rcases ht with ht | ⟨ht, hexcess⟩
      · exact .inl (ht.trans he.symm)
      · refine .inr ⟨?_, he, ht⟩
        rw [List.append_nil, hj] at hexcess
        rw [ht]
        rintro (heof | hpos)
        · cases heof
        · omega
  assigns := by
    intro j c d h hk
    obtain ⟨passed, u, rest, -, rfl, rfl, -⟩ := h.step he hk
    cases rest with
    | cons v rest => rfl
    | nil => rcases ht with ht | ⟨ht, -⟩ <;> simp [Cursor.secondKind?, Cursor.behind, he, ht]
  sign := by
    intro j c d h hk
    have hne : c.kind ≠ .eof := by rcases hk with hk | hk <;> simp [hk]
    obtain ⟨passed, u, rest, -, rfl, rfl, -⟩ := h.step he hne
    cases rest with
    | cons v rest => rfl
    | nil => rcases ht with ht | ⟨ht, -⟩ <;> simp [Cursor.atCoordinateSign, Cursor.behind, he, ht]
  placed := by
    rintro j c d ⟨passed, rest, rfl, rfl, rfl, hj⟩ hk
    cases rest with
    | cons u rest => exact hplace u (by simp)
    | nil => exact hend (hk.trans he)
  unwanted _ _ := trivial
  lacking _ _ := trivial
  opens h hk := h.advance he hk (by simp) (by simp [Token.Turn.rise])
  closes h hk := h.advance he hk (by simp) (Token.Turn.add_rise_closes _)
  stays h hk := h.advance he hk (by simp) (by simp [Token.Turn.rise])
  shorter := by
    intro j c d h hk
    obtain ⟨passed, u, rest, -, rfl, -⟩ := h.step he hk
    rw [Cursor.advance_behind]
    simp [Cursor.behind]

end Parallel

section

variable {front more : List Token} {e semicolon : Token} {j : Nat} {c d : Cursor}

/-- An end mark in front of a cursor is the one behind `front`. -/
theorem Parallel.InFront.at_end {t : Token} (h : InFront front e t more j c d)
    (hfront : ∀ u ∈ front, u.kind ≠ .eof) (hk : c.kind = .eof) :
    excess front = j ∧ d = .behind front (t :: more) := by
  obtain ⟨passed, rest, rfl, rfl, rfl, hj⟩ := h
  cases rest with
  | nil => exact ⟨by rw [List.append_nil, hj], by rw [List.append_nil, List.nil_append]⟩
  | cons u rest => exact absurd hk (hfront u (by simp))

/-- **A program has no open brackets in the end**, and what is so of the places of all tokens is so
of all places in its tree. -/
theorem program_front {n : Nat} {a : Expr} {m : Memory} (he : e.kind = .eof)
    (hfront : ∀ u ∈ front, u.kind ≠ .eof) (place : Position → Position)
    (hplace : ∀ u ∈ front ++ [e], place u.position = u.position) (hn : (front ++ [e]).length ≤ n)
    (h : program n (.start (front ++ [e])) none = (.ok a c, m)) :
    excess front = 0 ∧ a.placed place = a := by
  have hcd : (Parallel.inFront [] he (.inl he) place
      (fun u hu => hplace u (List.mem_append_left _ hu)) fun _ => hplace e (by simp)).Abreast 0
        (.start (front ++ [e])) (.start (front ++ [e])) :=
    ⟨[], front, rfl, rfl, rfl, rfl⟩
  have hagree := Parallel.agree_program (Parallel.ready_plain fun _ _ => Iff.rfl) (Or.inl he) hcd
    hn hn none none ⟨rfl, rfl⟩
  have hk := (program_ok h).2
  rw [h] at hagree
  cases hagree with
  | ok hplaced habreast =>
    exact ⟨(Parallel.InFront.at_end habreast hfront hk).1, hplaced.trans (Expr.placed_id a)⟩

/-- Two readings of a list and of one that goes on with a semicolon. -/
def Parallel.beforeSemicolon (more : List Token) (he : e.kind = .eof)
    (hsemi : semicolon.kind = .symbol .semicolon) (hexcess : excess front = 0) : Parallel :=
  inFront more he (.inr ⟨hsemi, hexcess⟩) id (fun _ _ => rfl) fun heof => by
    rw [hsemi] at heof
    cases heof

/-- **Items in front of a semicolon.** Where a list of items ends, the longer list goes on behind
the semicolon. The induction is on the recursion of the shorter list. -/
theorem sequenceItems_front {n n' most : Nat} {sub sub' : Goal → TokenReader Expr}
    {he : e.kind = .eof} (hfront : ∀ u ∈ front, u.kind ≠ .eof)
    {hsemi : semicolon.kind = .symbol .semicolon} {hexcess : excess front = 0} (hmore : more ≠ [])
    (hr : (Parallel.beforeSemicolon more he hsemi hexcess).Ready most n n' sub sub') {k k' : Nat}
    {done es : List Expr} {c' : Cursor} {m' : Memory}
    (hcd : (Parallel.beforeSemicolon more he hsemi hexcess).Abreast 0 c d)
    (hmost : c.rest.length ≤ most + 1) (hk' : c.rest.length + more.length ≤ k')
    (h : sequenceItems n sub k done c none = (.ok es c', m')) (hend : c'.kind = .eof) :
    ∃ left, more.length ≤ left ∧ sequenceItems n' sub' k' done d none =
      sequenceItems n' sub' left es.reverse (.behind (front ++ [semicolon]) more) none := by
  have hbehind : (Cursor.behind front (semicolon :: more)).advance =
      .behind (front ++ [semicolon]) more := by
    obtain ⟨u, us, rfl⟩ := List.exists_cons_of_ne_nil hmore
    exact Cursor.advance_behind front [] semicolon u us
  have hpassed : (Cursor.behind front (semicolon :: more)).kind = .symbol .semicolon := hsemi
  induction k generalizing c d k' done with
  | zero => cases h
  | succ k ih =>
    have hpos := List.length_pos_iff.2 (Parallel.nonempty _ hcd)
    obtain ⟨k', rfl⟩ := Nat.exists_eq_succ_of_ne_zero (show k' ≠ 0 by omega)
    rw [sequenceItems_succ] at h ⊢
    split_ifs at h with hends hk
    · -- The first list ends, and the second goes on with the semicolon.
      cases h
      obtain ⟨-, rfl⟩ := Parallel.InFront.at_end hcd hfront hend
      refine ⟨k', by omega, ?_⟩
      rw [hpassed, if_neg (by decide), if_pos rfl, hbehind, List.reverse_reverse]
    · have hne : c.kind ≠ .eof := by simp [hk]
      have hlt := Parallel.shorter _ hcd hne
      rw [Parallel.kind_eq hcd hne, if_neg hends, if_pos hk]
      exact ih (Parallel.stays _ hcd (by simp [hk])) (by omega) (by omega) h
    · have hne : c.kind ≠ .eof := by
        intro heof
        exact hends (by rw [heof]; rfl)
      have hagree := hr.agree_item hcd hmost none none ⟨rfl, rfl⟩
      rw [Parallel.kind_eq hcd hne, if_neg hends, if_neg hk]
      split at h
      · next a c₁ m₁ hitem =>
        rw [hitem] at hagree
        generalize item n' sub' d none = s at hagree ⊢
        cases hagree with
        | ok hsame hcd₁ hle hm =>
          obtain ⟨rfl, rfl⟩ := hm
          obtain rfl := (Expr.placed_id _).symm.trans (hsame.trans (Expr.placed_id _))
          dsimp only
          split_ifs at h with hk₁
          · have hne₁ : c₁.kind ≠ .eof := by simp [hk₁]
            have hlt := Parallel.shorter _ hcd₁ hne₁
            rw [Parallel.kind_eq hcd₁ hne₁, if_pos hk₁]
            exact ih (Parallel.stays _ hcd₁ (by simp [hk₁])) (by omega) (by omega) h
          · cases h
            obtain ⟨-, rfl⟩ := Parallel.InFront.at_end hcd₁ hfront hend
            refine ⟨k', by omega, ?_⟩
            rw [hpassed, if_pos rfl, hbehind, List.reverse_reverse]
      · cases h
      · cases h

end

/-! ## The same list further down -/

namespace Parallel

variable {us before : List Token} {k : Nat} {c d : Cursor}

/-- The cursors have passed the same tokens, which stand further down in the second list, behind
others. -/
def Below (us before : List Token) (k : Nat) (c d : Cursor) : Prop :=
  ∃ passed u rest, us = passed ++ u :: rest ∧ c = .behind passed (u :: rest) ∧
    d = .behind (before ++ passed.map (Token.down k)) ((u :: rest).map (Token.down k))

theorem Below.step (hend : EndMarked us) (h : Below us before k c d) (hk : c.kind ≠ .eof) :
    Below us before k c.advance d.advance ∧ c.advance.rest.length < c.rest.length := by
  obtain ⟨passed, u, rest, hus, rfl, rfl⟩ := h
  obtain ⟨e, hlast, he⟩ := hend
  cases rest with
  | nil =>
    rw [hus, List.getLast?_concat] at hlast
    cases hlast
    exact absurd he hk
  | cons v rest =>
    refine ⟨⟨passed ++ [u], v, rest, by rw [hus]; simp, ?_, ?_⟩, Nat.lt_succ_self _⟩
    · exact Cursor.advance_behind passed [] u v rest
    · rw [List.map_append, List.map_singleton, ← List.append_assoc]
      exact Cursor.advance_behind _ [] (u.down k) (v.down k) _

/-- A sign is seen alike, since the list begins on a new line. -/
theorem Below.sign {last : Token} (hbefore : before.getLast? = some last)
    (hlines : ∀ t ∈ us, last.position.line < t.position.line + k) (h : Below us before k c d) :
    d.atCoordinateSign = c.atCoordinateSign := by
  obtain ⟨passed, u, rest, hus, rfl, rfl⟩ := h
  cases rest with
  | nil => rfl
  | cons v rest =>
    rcases List.eq_nil_or_concat passed with rfl | ⟨ts, t, rfl⟩
    · have hapart : last.touches (u.down k) = false := by
        have hne : last.position.line ≠ (u.position.down k).line :=
          Nat.ne_of_lt (hlines u (by simp [hus]))
        simp [Token.touches, Token.down, hne]
      simp [Cursor.atCoordinateSign, Cursor.behind, Cursor.token, hbefore, hapart]
    · simp [Cursor.atCoordinateSign, Cursor.behind, Cursor.token]

/-- Two readings of a list, once on its own and once further down. -/
def below (hend : EndMarked us) {last : Token} (hbefore : before.getLast? = some last)
    (hlines : ∀ t ∈ us, last.position.line < t.position.line + k) : Parallel where
  Abreast _ := Below us before k
  Recalls m m' := m = none ∧ m' = none
  place := Position.down k
  place' := id
  Blames _ _ := True
  Whole _ := True
  whole_succ _ := trivial
  nonempty := by
    rintro j c d ⟨passed, u, rest, -, rfl, -⟩
    exact List.cons_ne_nil _ _
  kind := by
    rintro j c d ⟨passed, u, rest, -, rfl, rfl⟩
    exact .inl rfl
  assigns := by
    rintro j c d ⟨passed, u, rest, -, rfl, rfl⟩ -
    cases rest <;> rfl
  sign h _ := h.sign hbefore hlines
  placed := by
    rintro j c d ⟨passed, u, rest, -, rfl, rfl⟩ -
    rfl
  unwanted _ _ := trivial
  lacking _ _ := trivial
  opens h hk := (h.step hend (Kind.ne_eof_of_turn hk nofun)).1
  closes h hk := (h.step hend (Kind.ne_eof_of_turn hk nofun)).1
  stays h hk := (h.step hend (Kind.ne_eof_of_turn hk nofun)).1
  shorter h hk := (h.step hend hk).2

end Parallel

/-! ## Two programs in one list -/

/-- A program is read as a sequence of items with an end mark behind it. -/
theorem program_eq_ok_iff {n : Nat} {c c' : Cursor} {m m' : Memory} {a : Expr} :
    program (n + 1) c m = (.ok a c', m') ↔ ∃ es, a = .seq es c.token.position ∧
      sequenceItems (n + 1) (run n) (n + 1) [] c m = (.ok es c', m') ∧ c'.kind = .eof := by
  have hrun : run (n + 1) .sequence c m = TokenReader.bind
      (sequenceItems (n + 1) (run n) (n + 1) []) (fun es => pure (.seq es c.token.position)) c m :=
    rfl
  constructor
  · intro h
    obtain ⟨hseq, hk⟩ := program_ok h
    rw [hrun] at hseq
    unfold TokenReader.bind at hseq
    split at hseq
    · next es c₁ m₁ hitems =>
      cases hseq
      exact ⟨es, rfl, hitems, hk⟩
    · cases hseq
    · cases hseq
  · rintro ⟨es, rfl, hitems, hk⟩
    have hseq : run (n + 1) .sequence c m = (.ok (.seq es c.token.position) c', m') := by
      rw [hrun, TokenReader.bind, hitems]
      rfl
    show TokenReader.bind (run (n + 1) .sequence) _ c m = _
    rw [TokenReader.bind, hseq]
    show (if c'.kind == .eof then pure _ else unexpected .endOfProgram : TokenReader Expr) c' m' = _
    rw [hk]
    rfl

theorem program_of_parse {ts : List Token} {a : Expr} (hend : EndMarked ts)
    (h : Expr.parse ts = .ok a) :
    ∃ c m, program (ts.length + 1) (.start ts) none = (.ok a c, m) := by
  rw [parse_eq_parseWith_none hend] at h
  unfold Expr.parseWith at h
  split at h
  · next b c hprogram =>
    cases h
    exact ⟨c, _, Prod.ext hprogram rfl⟩
  · cases h
  · cases h

section

variable {front us before : List Token} {e semicolon last : Token} {k n : Nat}

/-- The items of a program, read in front of a semicolon and more tokens. -/
theorem items_front {a : Expr} {more : List Token} (he : e.kind = .eof)
    (hfront : ∀ u ∈ front, u.kind ≠ .eof) (hsemi : semicolon.kind = .symbol .semicolon)
    (hmore : more ≠ []) (hn : (front ++ semicolon :: more).length ≤ n)
    (ha : Expr.parse (front ++ [e]) = .ok a) :
    ∃ ps p left, a = .seq ps p ∧ more.length ≤ left ∧
      sequenceItems (n + 1) (run n) (n + 1) [] (.start (front ++ semicolon :: more)) none =
        sequenceItems (n + 1) (run n) left ps.reverse (.behind (front ++ [semicolon]) more)
          none := by
  obtain ⟨c, m, hc⟩ := program_of_parse ⟨e, List.getLast?_concat .., he⟩ ha
  have hexcess : excess front = 0 :=
    (program_front he hfront id (fun _ _ => rfl) (Nat.le_succ _) hc).1
  obtain ⟨ps, rfl, hitems, hck⟩ := program_eq_ok_iff.1 hc
  have hlen : (front ++ [e]).length + more.length ≤ n := by
    simp only [List.length_append, List.length_cons, List.length_nil] at hn ⊢
    omega
  have hready : (Parallel.beforeSemicolon more he hsemi hexcess).Ready (front ++ [e]).length
      ((front ++ [e]).length + 1) (n + 1) (run (front ++ [e]).length) (run n) :=
    Parallel.ready_plain (fun _ _ => Iff.rfl) (Parallel.nested_run
      (Parallel.ready_plain fun _ _ => Iff.rfl) (Nat.le_refl _) (by omega))
  have hstart : (Parallel.beforeSemicolon more he hsemi hexcess).Abreast 0
      (.start (front ++ [e])) (.start (front ++ semicolon :: more)) :=
    ⟨[], front, rfl, rfl, rfl, rfl⟩
  obtain ⟨left, hleft, hfirst⟩ := sequenceItems_front hfront hmore hready hstart (Nat.le_succ _)
    (Nat.le_succ_of_le hlen) hitems hck
  exact ⟨ps, _, left, rfl, hleft, hfirst⟩

/-- The items of a program, read behind other tokens and further down. -/
theorem items_below {b : Expr} {left : Nat} (hend : EndMarked us)
    (hbefore : before.getLast? = some last)
    (hlines : ∀ t ∈ us, last.position.line < t.position.line + k) (hleft : us.length ≤ left)
    (hn : us.length ≤ n) (hb : Expr.parse us = .ok b) :
    ∃ qs q c, b = .seq qs q ∧ c.kind = .eof ∧
      sequenceItems (n + 1) (run n) left [] (.behind before (us.map (Token.down k))) none =
        (.ok (qs.map (Expr.placed (Position.down k))) c, none) := by
  obtain ⟨c, m, hc⟩ := program_of_parse hend hb
  obtain ⟨qs, rfl, hitems, hck⟩ := program_eq_ok_iff.1 hc
  obtain ⟨f, hlast, hf⟩ := id hend
  obtain ⟨u, vs, rfl⟩ := List.exists_cons_of_ne_nil
    (show us ≠ [] from fun hnil => by simp [hnil] at hlast)
  have hready : (Parallel.below hend hbefore hlines).Ready (u :: vs).length
      ((u :: vs).length + 1) (n + 1) (run (u :: vs).length) (run n) :=
    Parallel.ready_plain (fun _ _ => Iff.rfl) (Parallel.nested_run
      (Parallel.ready_plain fun _ _ => Iff.rfl) (Nat.le_refl _) hn)
  have hstart : (Parallel.below hend hbefore hlines).Abreast 0 (.start (u :: vs))
      (.behind before ((u :: vs).map (Token.down k))) :=
    ⟨[], u, vs, rfl, rfl, by rw [List.map_nil, List.append_nil]⟩
  have hagree : (Parallel.below hend hbefore hlines).Matches 0 (u :: vs).length
      (View.list Expr.placed)
      (sequenceItems ((u :: vs).length + 1) (run (u :: vs).length) ((u :: vs).length + 1) []
        (.start (u :: vs)) none)
      (sequenceItems (n + 1) (run n) left [] (.behind before ((u :: vs).map (Token.down k)))
        none) :=
    hready.agree_sequenceItems trivial hstart (Nat.le_succ _) (Nat.le_succ _) hleft rfl none none
      ⟨rfl, rfl⟩
  rw [hitems] at hagree
  generalize sequenceItems (n + 1) (run n) left [] _ none = s at hagree ⊢
  cases hagree with
  | ok hsame habreast _ hm =>
    obtain ⟨rfl, rfl⟩ := hm
    have hplaced : _ = qs.map (Expr.placed (Position.down k)) :=
      (List.map_id'' Expr.placed_id _).symm.trans hsame
    refine ⟨qs, _, _, rfl, ?_, by rw [hplaced]⟩
    exact (Parallel.kind_eq_of_whole habreast trivial).trans hck

end

/-- **Two programs with a semicolon between them** are one program, with the items of the first and
then those of the second. -/
theorem parse_append {front us : List Token} {e semicolon : Token} {a b : Expr} {k : Nat}
    (he : e.kind = .eof) (hfront : ∀ u ∈ front, u.kind ≠ .eof)
    (hsemi : semicolon.kind = .symbol .semicolon) (hend : EndMarked us)
    (hlines : ∀ t ∈ us, semicolon.position.line < t.position.line + k)
    (ha : Expr.parse (front ++ [e]) = .ok a) (hb : Expr.parse us = .ok b) :
    ∃ ps p qs q r, a = .seq ps p ∧ b = .seq qs q ∧
      Expr.parse (front ++ semicolon :: us.map (Token.down k)) =
        .ok (.seq (ps ++ qs.map (Expr.placed (Position.down k))) r) := by
  obtain ⟨f, hlast, hf⟩ := id hend
  have hne : us.map (Token.down k) ≠ [] := by
    intro hnil
    rw [List.map_eq_nil_iff.1 hnil] at hlast
    cases hlast
  have hjoined : EndMarked (front ++ semicolon :: us.map (Token.down k)) := by
    refine ⟨f.down k, ?_, hf⟩
    simp [List.getLast?_cons, hlast]
  obtain ⟨ps, p, left, rfl, hleft, hfirst⟩ := items_front he hfront hsemi hne (Nat.le_refl _) ha
  rw [List.length_map] at hleft
  have hbefore : (front ++ [semicolon]).getLast? = some semicolon := List.getLast?_concat ..
  have hn : us.length ≤ (front ++ semicolon :: us.map (Token.down k)).length := by
    simp only [List.length_append, List.length_cons, List.length_map]
    omega
  obtain ⟨qs, q, c, rfl, hck, hsecond⟩ := items_below hend hbefore hlines hleft hn hb
  have hitems := sequenceItems_append hsecond ps.reverse
  rw [List.nil_append, ← hfirst, List.reverse_reverse] at hitems
  have hparse := parse_eq_parseWith_none hjoined
  rw [Expr.parseWith, program_eq_ok_iff.2 ⟨_, rfl, hitems, hck⟩] at hparse
  exact ⟨ps, p, qs, q, _, rfl, rfl, hparse⟩

/-! ## Two texts -/

/-- A text behind another one, with a semicolon on a line of its own between them. -/
def joined (source source' : String) : String := source ++ "\n;\n" ++ source'

/-- The line that a text ends on. -/
def lastLine (source : String) : Nat := (Position.start.afterText source.toList).line

/-- The semicolon behind the first text. -/
def semicolonBehind (source : String) : Token :=
  ⟨.symbol .semicolon, ⟨lastLine source + 1, 1⟩, 1⟩

/-- The place, but no further down than the given line. -/
def Position.upTo (last : Nat) (p : Position) : Position := ⟨min p.line last, p.column⟩

theorem scan_of_parse {source : String} {a : Expr} (h : parse source = .ok a) :
    ∃ ts, Lexer.scan source = .ok ts ∧ Expr.parse ts = .ok a := by
  unfold parse at h
  cases hscan : Lexer.scan source with
  | error e =>
    rw [hscan] at h
    cases h
  | ok ts =>
    rw [hscan] at h
    exact ⟨ts, rfl, h⟩

/-- **The joined text consists of the tokens of both**, with a semicolon in place of the first end
mark. -/
theorem scan_joined {source source' : String} {ts us : List Token}
    (hts : Lexer.scan source = .ok ts) (hus : Lexer.scan source' = .ok us) :
    ∃ front e, ts = front ++ [e] ∧ e.kind = .eof ∧ (∀ t ∈ front, t.kind ≠ .eof) ∧
      (∀ t ∈ ts, t.position.line ≤ lastLine source) ∧ (∀ t ∈ us, 1 ≤ t.position.line) ∧
      Lexer.scan (joined source source') = .ok
        (front ++ semicolonBehind source :: us.map (Token.down (lastLine source + 1))) := by
  obtain ⟨gaps, hspaced⟩ := Lexer.scan_eq_ok_iff.1 hts
  obtain ⟨gaps', hspaced'⟩ := Lexer.scan_eq_ok_iff.1 hus
  obtain ⟨front, e, hfront, he, hkinds, hlines, hmore⟩ := hspaced.newline
  have hfirst : ∀ t ∈ us, 1 ≤ t.position.line := by
    intro t ht
    rcases hspaced'.before (q := ⟨1, 0⟩) (.inr ⟨rfl, by decide⟩) t ht with hline | ⟨hline, -⟩
    · exact Nat.le_of_lt hline
    · exact Nat.le_of_eq hline
  refine ⟨front, e, hfront, he, hkinds, hlines, hfirst, ?_⟩
  -- The second text starts on the line behind the semicolon.
  have hbelow := hspaced'.down (lastLine source + 1)
  rw [show Position.start.down (lastLine source + 1) = ⟨lastLine source + 1 + 1, 1⟩ from
    congrArg (Position.mk · 1) (Nat.add_comm _ _)] at hbelow
  obtain ⟨gaps₁, hblank⟩ : ∃ gaps₁, Lexer.Spaced ⟨lastLine source + 1, 2⟩
      ([] ++ '\n' :: source'.toList) gaps₁ (us.map (Token.down (lastLine source + 1))) :=
    Lexer.Spaced.after_gap [] rfl hbelow
  have hsemi : Lexer.Spaced ⟨lastLine source + 1, 1⟩ ([] ++ ';' :: '\n' :: source'.toList)
      ([] :: gaps₁) (semicolonBehind source :: us.map (Token.down (lastLine source + 1))) :=
    .lexeme (l := ⟨.symbol .semicolon, [';'], '\n' :: source'.toList⟩) rfl rfl hblank
  obtain ⟨gaps₂, hall⟩ := hmore _ _ _ hsemi
  refine Lexer.scan_eq_ok_iff.2 ⟨gaps₂, ?_⟩
  have htext : (joined source source').toList =
      source.toList ++ '\n' :: ';' :: '\n' :: source'.toList := by
    simp [joined]
  rw [htext]
  exact hall

/-- **The joined text is parsed to the items of both.** Those of the second text stand further down,
and those of the first no further down than it ends. -/
theorem parse_joined {source source' : String} {a b : Expr} (ha : parse source = .ok a)
    (hb : parse source' = .ok b) :
    ∃ ps p qs q r, a = .seq ps p ∧ b = .seq qs q ∧
      parse (joined source source') = .ok
        (.seq (ps ++ qs.map (Expr.placed (Position.down (lastLine source + 1)))) r) ∧
      a.placed (Position.upTo (lastLine source)) = a := by
  obtain ⟨ts, hts, ha⟩ := scan_of_parse ha
  obtain ⟨us, hus, hb⟩ := scan_of_parse hb
  obtain ⟨front, e, rfl, he, hfront, hlines, hfirst, hscan⟩ := scan_joined hts hus
  have hbelow : ∀ t ∈ us,
      (semicolonBehind source).position.line < t.position.line + (lastLine source + 1) := by
    intro t ht
    have hline := hfirst t ht
    simp only [semicolonBehind]
    omega
  obtain ⟨ps, p, qs, q, r, hps, hqs, hparse⟩ :=
    parse_append he hfront rfl (Lexer.endMarked_of_scan hus) hbelow ha hb
  have hplace : ∀ t ∈ front ++ [e], t.position.upTo (lastLine source) = t.position := by
    intro t ht
    rw [Position.upTo, Nat.min_eq_left (hlines t ht)]
  obtain ⟨c, m, hc⟩ := program_of_parse (Lexer.endMarked_of_scan hts) ha
  refine ⟨ps, p, qs, q, r, hps, hqs, (parse_of_scan hscan).trans hparse, ?_⟩
  exact (program_front he hfront _ hplace (Nat.le_succ _) hc).2

end GeoScript
