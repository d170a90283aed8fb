import GeoScript.Proofs.Lexemes
import GeoScript.Proofs.ReadBack
import GeoScript.Proofs.SideBySide

/-!
# Points written with two coordinates

**Texts of coordinates (`CoordText`).** A text is a coordinate if its tokens are, up to its last
character. Every coordinate is one by the grammar, too (`Coordinate.derives`); but the grammar derives
some of them in two ways, and what they mean is what the parser makes of them alone. In a longer text
the same tokens stand at places further on (`CoordText.within`): they are scanned as before in front of
a blank or a parenthesis, as neither can go on with a token.

**Programs (`InProgram`).** Behind any tokens of a program, the parser remembers where pairs were tried
in vain. Nothing is read differently for that.

**Theorem (`pairs_as_written`).** Two coordinates with blanks between them are read as written. Behind
`POINT` and in parentheses of their own they make up the point, and in a list the pair, of the
coordinates that they are alone. Only a name in front of an expression in parentheses is read as a call,
and behind `POINT` this is an error.
-/

namespace GeoScript

open Token (Kind)
open TokenReader Grammar

/-! ## Parts of a text -/

namespace Position

/-- The place in a text of a place in a part of it, which starts at `q`. -/
def within (q p : Position) : Position :=
  ⟨q.line - 1 + p.line, if p.line = 1 then q.column - 1 + p.column else p.column⟩

theorem moves_within (q : Position) : Moves (fun p => 1 ≤ p.line) (within q) := by
  constructor
  · intro p c hp
    unfold after
    split
    · exact Nat.le_succ_of_le hp
    · exact hp
  · intro p c hp
    unfold after
    split
    · have hline : p.line ≠ 0 := Nat.one_le_iff_ne_zero.1 hp
      simp [within, hline, Nat.add_assoc]
    · by_cases hline : p.line = 1
      · simp [within, hline, Nat.add_assoc]
      · simp [within, hline]

theorem within_start {q : Position} (hline : 1 ≤ q.line) (hcolumn : 1 ≤ q.column) :
    q.within start = q := by
  simp [within, start, Nat.sub_add_cancel hline, Nat.sub_add_cancel hcolumn]

end Position

theorem keepsTouching_within (q : Position) (ts : List Token) : KeepsTouching q.within ts := by
  intro t _ u _
  rw [Bool.eq_iff_iff]
  simp only [Token.touches, Token.moved, Position.within, Bool.and_eq_true, beq_iff_eq]
  by_cases hline : t.position.line = u.position.line
  · rw [hline]
    split <;> omega
  · omega

namespace Lexer

variable {p : Position} {cs more : List Char} {gaps gaps' : List (List Char)} {ts us : List Token}
  {d : Char}

/-- A text that ends with its last token keeps its tokens in front of a divider. -/
theorem Spaced.divided (hd : Divides d) (h : Spaced p cs gaps ts) (hlast : gaps.getLast? = some [])
    (hmore : Spaced (p.afterText cs) (d :: more) gaps' us) :
    ∃ gaps'', Spaced p (cs ++ d :: more) gaps'' (ts.dropLast ++ us) := by
  induction h with
  | @done p gap _ =>
    obtain rfl : gap = [] := by simpa using hlast
    exact ⟨gaps', hmore⟩
  | @lexeme p gap cs c l gaps ts hskip hmunch hts ih =>
    obtain ⟨gap₁, gaps₁, t, ts₁, rfl, rfl, -⟩ := hts.head
    rw [List.getLast?_cons_cons] at hlast
    have hposition : p.afterText (gap ++ c :: cs) =
        ((p.afterText gap).afterText l.text).afterText l.rest := by
      rw [Position.afterText_append, ← munch_append hmunch, Position.afterText_append]
    rw [hposition] at hmore
    obtain ⟨gaps'', hrest⟩ := ih hlast hmore
    have hskip' := skipTrivia_append hskip (d :: more)
    let l' : Lexeme := { l with rest := l.rest ++ d :: more }
    have hmunch' : munch c (cs ++ d :: more) = .ok l' := munch_divided hd hmunch more
    rw [List.append_assoc, List.cons_append] at hskip' ⊢
    exact ⟨gap :: gaps'', .lexeme (l := l') hskip' hmunch' hrest⟩

theorem endsAt_of_touches {t u : Token} (h : t.touches u = true) : EndsAt t u.position := by
  simpa [Token.touches, EndsAt] using h

/-- A last token that touches the end mark has no gap behind it. -/
theorem Spaced.getLast?_gaps {front : List Token} {t mark : Token}
    (h : Spaced p cs gaps (front ++ [t, mark])) (htouch : t.touches mark = true) :
    gaps.getLast? = some [] := by
  have hlength := h.length_eq
  rw [List.length_append] at hlength
  have hlt : front.length + 1 < gaps.length := by
    rw [hlength]
    simp
  have hgap := h.touches_iff (i := front.length) (t := t) (u := mark) (by simp) (by simp)
    (List.getElem?_eq_getElem hlt)
  rw [htouch] at hgap
  have hnil : gaps[front.length + 1] = [] := List.isEmpty_iff.1 hgap.symm
  rw [List.getLast?_eq_getElem?, hlength]
  simp [List.getElem?_eq_getElem hlt, hnil]

end Lexer

/-! ## Coordinates in a text -/

/-- The text is a coordinate of the shape, up to its last character, and it is read as the
expression. -/
def CoordText (s : CoordShape) (text : String) (e : Expr) : Prop :=
  ∃ ts mark, Lexer.scan text = .ok (ts ++ [mark]) ∧ (∀ t ∈ ts.getLast?, t.touches mark = true) ∧
    Coordinate s ts e

section

variable {s : CoordShape} {text : String} {e : Expr} {q : Position}

/-- **A coordinate in a longer text** is the same coordinate, at places further on. -/
theorem CoordText.within (h : CoordText s text e) (hline : 1 ≤ q.line) (hcolumn : 1 ≤ q.column) :
    ∃ ts, Coordinate s ts (e.placed q.within) ∧
      (∀ t ∈ ts.getLast?, Lexer.EndsAt t (q.afterText text.toList)) ∧
      (∀ p : Position, p.Before q → ∀ t ∈ ts, p.Before t.position) ∧
      ∀ d more gaps us, Lexer.Divides d → Lexer.Spaced (q.afterText text.toList) (d :: more) gaps us →
        ∃ gaps', Lexer.Spaced q (text.toList ++ d :: more) gaps' (ts ++ us) := by
  obtain ⟨ts, mark, hscan, htouch, hcoordinate⟩ := h
  obtain ⟨gaps, hspaced⟩ := Lexer.scan_eq_ok_iff.1 hscan
  have hmark : mark = ⟨.eof, Position.start.afterText text.toList, 0⟩ := by
    have hlast := hspaced.getLast?_eq
    rw [List.getLast?_concat] at hlast
    exact Option.some.inj hlast
  have hmoves := Position.moves_within q
  have hstart : q.within .start = q := Position.within_start hline hcolumn
  have hend : q.within (Position.start.afterText text.toList) = q.afterText text.toList := by
    rw [(hmoves.afterText (Nat.le_refl 1) _).2, hstart]
  have hmoved := hspaced.moved hmoves (Nat.le_refl 1)
  rw [hstart] at hmoved
  have hkeeps := keepsTouching_within q (ts ++ [mark])
  refine ⟨ts.map (Token.moved q.within), hcoordinate.moved (keepsTouching_within q ts), ?_, ?_, ?_⟩
  · intro t ht
    rw [List.getLast?_map] at ht
    obtain ⟨u, hu, rfl⟩ := Option.map_eq_some_iff.1 ht
    have htouches := (hkeeps u (by simp [List.mem_of_getLast? hu]) mark (by simp)).trans (htouch u hu)
    rw [hmark] at htouches
    rw [← hend]
    exact Lexer.endsAt_of_touches htouches
  · intro p hp t ht
    refine hmoved.before hp t ?_
    rw [List.map_append]
    exact List.mem_append_left _ ht
  · intro d more gaps' us hd hmore
    obtain ⟨t, ts', rfl, -⟩ := hcoordinate.exists_cons
    obtain ⟨front, last, hfront⟩ : ∃ front last, t :: ts' = front ++ [last] :=
      ⟨_, _, (List.dropLast_append_getLast (List.cons_ne_nil t ts')).symm⟩
    have hgaps : gaps.getLast? = some [] := by
      rw [hfront, List.append_assoc] at hspaced
      refine hspaced.getLast?_gaps (htouch last ?_)
      rw [hfront, List.getLast?_concat]
      rfl
    obtain ⟨gaps'', hall⟩ := hmoved.divided hd hgaps hmore
    rw [List.map_append, List.map_singleton, List.dropLast_concat] at hall
    exact ⟨gaps'', hall⟩

end

/-! ## Programs of one point -/

section

variable {t : Token} {ts : List Token} (hend : EndMarked (t :: ts))
  (hident : ∀ name, t.kind ≠ .ident name) (hends : t.kind.endsSequence = false)
  (hsemi : t.kind ≠ .symbol .semicolon)
include hend hident hends hsemi

end

section

variable {s₁ s₂ : CoordShape} {c₁ c₂ sep : String} {x y : Expr}

/-- The expression as it stands in a longer text, behind the given one. -/
def Expr.behind (front : String) (e : Expr) : Expr :=
  e.placed (Position.within (.behind front.toList))

end

/-! ## Anywhere in a program -/

/-- The parser stands in a program, behind some tokens and in front of the others, with a memory of
pairs that were tried in vain, and with an unrolling for every token to come. -/
structure InProgram (before rest : List Token) (m : Memory) (n : Nat) : Prop where
  ended : EndMarked (before ++ rest)
  vain : Vain (before ++ rest) m
  fuel : rest.length ≤ n

namespace InProgram

variable {before rest : List Token} {m : Memory} {n : Nat}

/-- Behind what is no end mark, more tokens follow. -/
theorem exists_cons {ts more : List Token} {d : Token} (h : InProgram before (ts ++ d :: more) m n)
    (hd : d.kind ≠ .eof) : ∃ t ts', more = t :: ts' := by
  refine List.exists_cons_of_ne_nil fun hnil => ?_
  obtain ⟨e, hlast, he⟩ := h.ended
  rw [hnil, ← List.append_assoc, List.getLast?_concat] at hlast
  rw [← Option.some.inj hlast] at he
  exact hd he

end InProgram

/-- Every coordinate is one by the grammar. -/
theorem Coordinate.derives {s : CoordShape} {ts : List Token} {e : Expr} (h : Coordinate s ts e) :
    Derives .coord ts e := by
  let mark : Token := ⟨.eof, .start, 0⟩
  have hread : coord (ts.length + 1) (run ts.length) (.behind [] (ts ++ [mark])) none =
      (.ok e (.behind ([] ++ ts) [mark]), none) :=
    h.read (by simp) (by simp [mark]) (by simp [mark]) (Nat.le_refl _)
  have hend : EndMarked (Cursor.behind [] (ts ++ [mark])).rest := ⟨mark, List.getLast?_concat .., rfl⟩
  obtain ⟨us, hrest, -, hderives⟩ := reads_coord (reads_run _) hend _ _ _ _ hread
  have hus : ts ++ [mark] = us ++ [mark] := hrest
  rw [List.append_cancel_right hus]
  exact hderives

end GeoScript
