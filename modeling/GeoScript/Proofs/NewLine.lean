import GeoScript.Proofs.Lexing
import Mathlib.Tactic.SplitIfs

/-!
# Texts on several lines

**Elsewhere.** A text is scanned alike wherever it starts: it has the same gaps and the same tokens,
all of them moved (`Spaced.moved`), for example so many lines further down (`Spaced.down`).

**In front of a divider.** No token needs to see the end of the text to end there. Where a character
stands instead that no token goes on with, such as a new line, it ends as well (`munch_divided`).

**In front of a new line.** So a text in front of a new line keeps all its tokens but the end mark,
whatever stands on the next line (`Spaced.newline`). A comment at the end of the text ends with its
line.
-/

namespace GeoScript

open Token (Kind)

/-! ## Places of a text that starts elsewhere -/

namespace Position

/-- A text that starts at a place where `good` holds may start at the place that `f` gives instead. -/
structure Moves (good : Position → Prop) (f : Position → Position) : Prop where
  keeps {p : Position} (c : Char) : good p → good (p.after c)
  after {p : Position} (c : Char) : good p → f (p.after c) = (f p).after c

theorem Moves.afterText {good : Position → Prop} {f : Position → Position} (hf : Moves good f)
    {p : Position} (hp : good p) (cs : List Char) :
    good (p.afterText cs) ∧ f (p.afterText cs) = (f p).afterText cs := by
  induction cs generalizing p with
  | nil => exact ⟨hp, rfl⟩
  | cons c cs ih =>
    rw [afterText_cons, afterText_cons, ← hf.after c hp]
    exact ih (hf.keeps c hp)

/-- The place so many lines further down. -/
def down (k : Nat) (p : Position) : Position := ⟨p.line + k, p.column⟩

theorem down_injective {k : Nat} {p q : Position} (h : p.down k = q.down k) : p = q := by
  obtain ⟨hline, hcolumn⟩ := Position.mk.inj h
  cases p
  cases q
  exact congr (congrArg Position.mk (Nat.add_right_cancel hline)) hcolumn

theorem after_down (k : Nat) (p : Position) (c : Char) :
    (p.down k).after c = (p.after c).down k := by
  unfold after down
  split
  · exact congrArg (Position.mk · 1) (Nat.add_right_comm p.line k 1)
  · rfl

theorem moves_down (k : Nat) : Moves (fun _ => True) (down k) :=
  ⟨fun _ hp => hp, fun c _ => (after_down k _ c).symm⟩

theorem line_le_afterText (p : Position) (cs : List Char) : p.line ≤ (p.afterText cs).line := by
  cases cs with
  | nil => exact Nat.le_refl _
  | cons c cs =>
    have hbefore := before_afterText (List.cons_ne_nil c cs) p
    unfold Before at hbefore
    omega

end Position

/-- The token at another place. -/
def Token.moved (f : Position → Position) (t : Token) : Token := { t with position := f t.position }

@[simp] theorem Token.kind_moved (f : Position → Position) (t : Token) : (t.moved f).kind = t.kind :=
  rfl

@[simp] theorem Token.moved_id : Token.moved id = id := rfl

/-- The token so many lines further down. -/
def Token.down (k : Nat) (t : Token) : Token := { t with position := t.position.down k }

@[simp] theorem Token.kind_down (k : Nat) (t : Token) : (t.down k).kind = t.kind := rfl

@[simp] theorem Token.touches_down (k : Nat) (t u : Token) :
    (t.down k).touches (u.down k) = t.touches u := by
  have hline : (t.position.line + k == u.position.line + k) =
      (t.position.line == u.position.line) := by
    rw [Bool.eq_iff_iff, beq_iff_eq, beq_iff_eq, Nat.add_right_cancel_iff]
  rw [touches, down, down, Position.down, Position.down, hline]
  rfl

/-! ## Texts in front of other texts -/

namespace Lexer

/-- What stands elsewhere is scanned alike. -/
theorem skipTrivia_moved {good : Position → Prop} {f : Position → Position}
    (hf : Position.Moves good f) (inComment : Bool) {p : Position} (hp : good p) (cs : List Char) :
    skipTrivia inComment (f p) cs =
      (f (skipTrivia inComment p cs).1, (skipTrivia inComment p cs).2) := by
  induction cs generalizing inComment p with
  | nil => rfl
  | cons c cs ih =>
    have hstep : ∀ b, skipTrivia b ((f p).after c) cs =
        (f (skipTrivia b (p.after c) cs).1, (skipTrivia b (p.after c) cs).2) := by
      intro b
      rw [← hf.after c hp]
      exact ih b (hf.keeps c hp)
    simp only [skipTrivia]
    split
    · exact hstep _
    split
    · exact hstep _
    split
    · exact hstep _
    · rfl

theorem Spaced.moved {good : Position → Prop} {f : Position → Position} (hf : Position.Moves good f)
    {p : Position} {cs : List Char} {gaps : List (List Char)} {ts : List Token}
    (h : Spaced p cs gaps ts) (hp : good p) : Spaced (f p) cs gaps (ts.map (Token.moved f)) := by
  induction h with
  | @done p gap hskip =>
    have hskip' := skipTrivia_moved hf false hp gap
    rw [hskip, (hf.afterText hp gap).2] at hskip'
    have hdone := Spaced.done hskip'
    rw [← (hf.afterText hp gap).2] at hdone
    exact hdone
  | @lexeme p gap cs c l gaps ts hskip hmunch _ ih =>
    obtain ⟨hgap, hafter⟩ := hf.afterText hp gap
    obtain ⟨htext, hafter'⟩ := hf.afterText hgap l.text
    have hskip' := skipTrivia_moved hf false hp (gap ++ c :: cs)
    rw [hskip, hafter] at hskip'
    have hrest := ih htext
    rw [hafter', hafter] at hrest
    have hlexeme := Spaced.lexeme hskip' hmunch hrest
    rw [← hafter] at hlexeme
    exact hlexeme

theorem Spaced.down {p : Position} {cs : List Char} {gaps : List (List Char)} {ts : List Token}
    (h : Spaced p cs gaps ts) (k : Nat) : Spaced (p.down k) cs gaps (ts.map (Token.down k)) :=
  h.moved (Position.moves_down k) trivial

/-- Where a token starts does not depend on what follows. -/
theorem skipTrivia_append {inComment : Bool} {p q : Position} {c : Char} {cs rest : List Char}
    (h : skipTrivia inComment p cs = (q, c :: rest)) (more : List Char) :
    skipTrivia inComment p (cs ++ more) = (q, c :: (rest ++ more)) := by
  induction cs generalizing inComment p with
  | nil => cases h
  | cons d cs ih =>
    simp only [skipTrivia, List.cons_append] at h ⊢
    split_ifs at h ⊢
    · exact ih h
    · exact ih h
    · exact ih h
    · cases h
      rfl

/-- A new line ends the last gap of a text, even if that is a comment. -/
theorem skipTrivia_newline {inComment : Bool} {p q : Position} {cs : List Char}
    (h : skipTrivia inComment p cs = (q, [])) (more : List Char) :
    skipTrivia inComment p (cs ++ '\n' :: more) = skipTrivia false (q.after '\n') more := by
  induction cs generalizing inComment p with
  | nil =>
    cases h
    cases inComment <;> rfl
  | cons d cs ih =>
    simp only [skipTrivia, List.cons_append] at h ⊢
    split_ifs at h ⊢
    · exact ih h
    · exact ih h
    · exact ih h
    · cases h

/-- What a class takes from a text ends where the text does, if what follows is not in the class. -/
theorem span_append {f : Char → Bool} {d : Char} (hd : f d = false) (cs more : List Char) :
    (cs ++ d :: more).takeWhile f = cs.takeWhile f ∧
      (cs ++ d :: more).dropWhile f = cs.dropWhile f ++ d :: more := by
  induction cs with
  | nil => simp [hd]
  | cons c cs ih => cases hc : f c <;> simp [hc, ih]

/-- No token goes on with the character. -/
structure Divides (d : Char) : Prop where
  digit : d.isDigit = false
  word : isIdentPart d = false
  point : d ≠ '.'
  sign : (d == '+' || d == '-') = false
  mark : (d == 'e' || d == 'E') = false
  symbol (s : Symbol) : d ∉ s.text.toList.tail

theorem divides_newline : Divides '\n' :=
  ⟨rfl, rfl, by decide, rfl, rfl, fun s => by cases s <;> decide⟩

section

variable {d : Char} (hd : Divides d)
include hd

theorem spanDigits_divided (cs more : List Char) : Decimal.spanDigits (cs ++ d :: more) =
    ((Decimal.spanDigits cs).1, (Decimal.spanDigits cs).2 ++ d :: more) := by
  obtain ⟨htake, hdrop⟩ := span_append hd.digit cs more
  rw [Decimal.spanDigits, htake, hdrop]
  rfl

theorem readFraction?_divided {cs fraction rest : List Char}
    (h : Decimal.readFraction? cs = some (fraction, rest)) (more : List Char) :
    Decimal.readFraction? (cs ++ d :: more) = some (fraction, rest ++ d :: more) := by
  unfold Decimal.readFraction? at h
  split at h
  · next ds =>
    dsimp only at h
    split at h
    · cases h
    · next hne =>
      cases h
      simp [Decimal.readFraction?, spanDigits_divided hd, hne]
  · next hpoint =>
    cases h
    cases cs with
    | nil =>
      rw [List.nil_append]
      unfold Decimal.readFraction?
      split
      · next heq => exact absurd (List.cons.inj heq).1 hd.point
      · rfl
    | cons c cs =>
      rw [List.cons_append]
      unfold Decimal.readFraction?
      split
      · next heq =>
        obtain ⟨rfl, -⟩ := List.cons.inj heq
        exact (hpoint cs rfl).elim
      · rfl

theorem spanSign_divided (cs more : List Char) :
    spanSign (cs ++ d :: more) = ((spanSign cs).1, (spanSign cs).2 ++ d :: more) := by
  cases cs with
  | nil => simp [spanSign, hd.sign]
  | cons c cs =>
    simp only [spanSign, List.cons_append]
    split <;> rfl

theorem spanExponent_divided (cs more : List Char) : spanExponent (cs ++ d :: more) =
    ((spanExponent cs).1, (spanExponent cs).2 ++ d :: more) := by
  cases cs with
  | nil => simp [spanExponent, hd.mark]
  | cons mark cs =>
    simp only [spanExponent, List.cons_append, spanSign_divided hd, spanDigits_divided hd]
    split
    · split <;> rfl
    · rfl

theorem munchNumber_divided {cs : List Char} {l : Lexeme} (h : munchNumber cs = .ok l)
    (more : List Char) :
    munchNumber (cs ++ d :: more) = .ok { l with rest := l.rest ++ d :: more } := by
  unfold munchNumber at h ⊢
  rw [spanDigits_divided hd]
  dsimp only at h ⊢
  split at h
  · cases h
  · next fraction rest hfraction =>
    rw [readFraction?_divided hd hfraction]
    dsimp only
    rw [spanExponent_divided hd]
    dsimp only
    split at h
    · next x hread =>
      cases h
      rfl
    · cases h

omit hd in
theorem isPrefixOf_divided {s : List Char} (hs : d ∉ s) (cs more : List Char) :
    s.isPrefixOf (cs ++ d :: more) = s.isPrefixOf cs := by
  induction s generalizing cs with
  | nil => rfl
  | cons a s ih =>
    rw [List.mem_cons, not_or] at hs
    cases cs with
    | nil => simp [List.isPrefixOf, Ne.symm hs.1]
    | cons c cs => simp [List.isPrefixOf, ih hs.2]

theorem symbol_divided (s : Symbol) (c : Char) (cs more : List Char) :
    s.text.toList.isPrefixOf (c :: (cs ++ d :: more)) = s.text.toList.isPrefixOf (c :: cs) := by
  have htail := hd.symbol s
  cases htext : s.text.toList with
  | nil => rfl
  | cons a as =>
    rw [htext, List.tail_cons] at htail
    rw [List.isPrefixOf, List.isPrefixOf, isPrefixOf_divided htail]

theorem startsNumber_divided (c : Char) (cs more : List Char) :
    startsNumber (c :: (cs ++ d :: more)) = startsNumber (c :: cs) := by
  cases cs with
  | nil => simp [startsNumber, hd.digit]
  | cons e cs => rfl

/-- **A token ends where a divider stands**, whatever follows. -/
theorem munch_divided {c : Char} {cs : List Char} {l : Lexeme} (h : munch c cs = .ok l)
    (more : List Char) :
    munch c (cs ++ d :: more) = .ok { l with rest := l.rest ++ d :: more } := by
  unfold munch at h ⊢
  rw [startsNumber_divided hd]
  split at h
  · next hnumber =>
    rw [if_pos hnumber]
    exact munchNumber_divided hd h more
  next hnumber =>
  rw [if_neg hnumber]
  split at h
  · next hident =>
    cases h
    obtain ⟨htake, hdrop⟩ := span_append hd.word cs more
    rw [if_pos hident, munchWord, munchWord, htake, hdrop]
  next hident =>
  have hfind : (fun s : Symbol => s.text.toList.isPrefixOf (c :: (cs ++ d :: more))) =
      fun s => s.text.toList.isPrefixOf (c :: cs) :=
    funext fun s => symbol_divided hd s c cs more
  rw [if_neg hident, hfind]
  split at h
  · next s hs =>
    cases h
    have hpre : s.text.toList.isPrefixOf (c :: cs) = true := by simpa using List.find?_some hs
    have hle := (List.isPrefixOf_iff_prefix.1 hpre).length_le
    dsimp only
    rw [← List.cons_append, List.drop_append_of_le_length hle]
  · cases h

end

/-- A gap and a new line in front of a text are a gap in front of its tokens. -/
theorem Spaced.after_gap {p : Position} (gap : List Char) {cs : List Char}
    {gaps : List (List Char)} {ts : List Token}
    (hskip : skipTrivia false p gap = (p.afterText gap, []))
    (h : Spaced ((p.afterText gap).after '\n') cs gaps ts) :
    ∃ gaps', Spaced p (gap ++ '\n' :: cs) gaps' ts := by
  have hafter : ∀ ds, ((p.afterText gap).after '\n').afterText ds =
      p.afterText (gap ++ '\n' :: ds) := by
    intro ds
    rw [Position.afterText_append, Position.afterText_cons]
  cases h with
  | done hskip' =>
    rw [← skipTrivia_newline hskip, hafter] at hskip'
    rw [hafter]
    exact ⟨_, .done hskip'⟩
  | @lexeme _ gap' cs' c l gaps' ts' hskip' hmunch hspaced =>
    rw [← skipTrivia_newline hskip, hafter, ← List.cons_append, ← List.append_assoc] at hskip'
    rw [hafter] at hspaced ⊢
    rw [← List.cons_append, ← List.append_assoc]
    exact ⟨_, .lexeme hskip' hmunch hspaced⟩

/-- **A text in front of a new line** keeps its tokens, but for the end mark. -/
theorem Spaced.newline {p : Position} {cs : List Char} {gaps : List (List Char)} {ts : List Token}
    (h : Spaced p cs gaps ts) : ∃ front e, ts = front ++ [e] ∧ e.kind = .eof ∧
      (∀ t ∈ front, t.kind ≠ .eof) ∧ (∀ t ∈ ts, t.position.line ≤ (p.afterText cs).line) ∧
      ∀ more gaps' us, Spaced ((p.afterText cs).after '\n') more gaps' us →
        ∃ gaps'', Spaced p (cs ++ '\n' :: more) gaps'' (front ++ us) := by
  induction h with
  | @done p gap hskip =>
    exact ⟨[], _, rfl, rfl, by simp, by simp, fun _ _ _ => Spaced.after_gap gap hskip⟩
  | @lexeme p gap cs c l gaps ts hskip hmunch hts ih =>
    obtain ⟨front, e, rfl, he, hfront, hlines, hmore⟩ := ih
    have hpos : p.afterText (gap ++ c :: cs) =
        ((p.afterText gap).afterText l.text).afterText l.rest := by
      rw [Position.afterText_append, ← munch_append hmunch, Position.afterText_append]
    rw [hpos]
    refine ⟨_ :: front, e, rfl, he, ?_, ?_, ?_⟩
    · exact List.forall_mem_cons.2 ⟨(munch_spec hmunch).2, hfront⟩
    · refine List.forall_mem_cons.2 ⟨?_, hlines⟩
      exact Nat.le_trans (Position.line_le_afterText _ l.text) (Position.line_le_afterText _ l.rest)
    · intro more gaps' us hus
      obtain ⟨gaps'', hspaced⟩ := hmore more gaps' us hus
      have hskip' := skipTrivia_append hskip ('\n' :: more)
      let l' : Lexeme := { l with rest := l.rest ++ '\n' :: more }
      have hmunch' : munch c (cs ++ '\n' :: more) = .ok l' := munch_divided divides_newline hmunch more
      rw [List.append_assoc, List.cons_append] at hskip' ⊢
      exact ⟨gap :: gaps'', .lexeme (l := l') hskip' hmunch' hspaced⟩

end Lexer

end GeoScript
