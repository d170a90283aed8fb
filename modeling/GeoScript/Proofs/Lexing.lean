import GeoScript.Proofs.PairMemory
import GeoScript.Proofs.Scanning

/-!
# Gaps and lexemes

**Spaced.** A text that can be scanned is a gap, a lexeme, a gap, a lexeme and so on up to a last
gap. Gaps hold blanks and comments, and are often empty. `Spaced` says so of a text, its gaps and
its tokens, and is just what scanning does (`scan_eq_ok_iff`).

**Places.** No lexeme spans lines, and each has a first character. So the tokens stand one behind
the other (`Spaced.increasing`), and two neighbours touch if and only if there is nothing between
them (`Spaced.touches_iff`).
-/

namespace GeoScript

open Token (Kind)

/-! ## The order of places -/

namespace Position

/-- The place comes before another one in a text. -/
def Before (p q : Position) : Prop := p.line < q.line ∨ p.line = q.line ∧ p.column < q.column

variable {p q r : Position}

theorem Before.trans (hpq : p.Before q) (hqr : q.Before r) : p.Before r := by
  unfold Before at *
  omega

theorem Before.ne (h : p.Before q) : p ≠ q := by
  rintro rfl
  unfold Before at h
  omega

theorem before_after (p : Position) (c : Char) : p.Before (p.after c) := by
  unfold Before after
  have hsize := c.utf8Size_pos
  split
  · exact .inl (Nat.lt_succ_self _)
  · exact .inr ⟨rfl, by simpa using hsize⟩

theorem afterText_cons (p : Position) (c : Char) (cs : List Char) :
    p.afterText (c :: cs) = (p.after c).afterText cs := rfl

theorem afterText_append (p : Position) (cs ds : List Char) :
    p.afterText (cs ++ ds) = (p.afterText cs).afterText ds := List.foldl_append

theorem before_afterText {cs : List Char} (h : cs ≠ []) (p : Position) :
    p.Before (p.afterText cs) := by
  induction cs generalizing p with
  | nil => exact absurd rfl h
  | cons c cs ih =>
    have hc := p.before_after c
    cases cs with
    | nil => exact hc
    | cons d cs => exact hc.trans (ih (List.cons_ne_nil d cs) _)

/-- Text can only move a place on. -/
theorem Before.afterText (h : p.Before q) (cs : List Char) : p.Before (q.afterText cs) := by
  cases cs with
  | nil => exact h
  | cons c cs => exact h.trans (before_afterText (List.cons_ne_nil c cs) q)

end Position

namespace Lexer

/-! ## Gaps -/

/-- Blanks and comments are skipped, and nothing else. -/
theorem exists_gap {inComment : Bool} {p q : Position} {cs rest : List Char}
    (h : skipTrivia inComment p cs = (q, rest)) :
    ∃ gap, cs = gap ++ rest ∧ q = p.afterText gap := by
  induction cs generalizing inComment p with
  | nil =>
    obtain ⟨rfl, rfl⟩ := Prod.mk.inj h
    exact ⟨[], rfl, rfl⟩
  | cons c cs ih =>
    have hskip : ∀ {b : Bool}, skipTrivia b (p.after c) cs = (q, rest) →
        ∃ gap, c :: cs = gap ++ rest ∧ q = p.afterText gap := by
      intro b hb
      obtain ⟨gap, rfl, rfl⟩ := ih hb
      exact ⟨c :: gap, rfl, rfl⟩
    unfold skipTrivia at h
    split at h
    · exact hskip h
    split at h
    · exact hskip h
    split at h
    · exact hskip h
    · obtain ⟨rfl, rfl⟩ := Prod.mk.inj h
      exact ⟨[], rfl, rfl⟩

/-! ## Lexemes -/

/-- What characters of lexemes are not: blanks, and the first characters of comments. -/
def isBreak (c : Char) : Bool := isBlank c || c == '#'

theorem isDigit_of_mem_spanDigits {c : Char} {cs : List Char} (h : c ∈ (Decimal.spanDigits cs).1) :
    c.isDigit = true :=
  List.all_eq_true.1 List.all_takeWhile c h

theorem not_isBreak_of_isDigit {c : Char} (h : c.isDigit = true) : isBreak c = false := by
  have hblank := isBlank_of_class h (by decide)
  simp [isBreak, hblank, ne_of_class h (d := '#') rfl]

theorem not_isBreak_fractionText {fraction : List Char} (h : ∀ c ∈ fraction, c.isDigit = true) :
    ∀ c ∈ fractionText fraction, isBreak c = false := by
  intro c hc
  cases fraction with
  | nil => cases hc
  | cons d ds =>
    rcases List.mem_cons.1 hc with rfl | hc
    · rfl
    · exact not_isBreak_of_isDigit (h c hc)

theorem isDigit_of_mem_readFraction? {cs fraction rest : List Char}
    (h : Decimal.readFraction? cs = some (fraction, rest)) : ∀ c ∈ fraction, c.isDigit = true := by
  intro c hc
  unfold Decimal.readFraction? at h
  split at h
  · dsimp only at h
    split at h
    · cases h
    · obtain ⟨rfl, -⟩ := Prod.mk.inj (Option.some.inj h)
      exact isDigit_of_mem_spanDigits hc
  · obtain ⟨rfl, -⟩ := Prod.mk.inj (Option.some.inj h)
    cases hc

theorem not_isBreak_spanSign (cs : List Char) : ∀ c ∈ (spanSign cs).1, isBreak c = false := by
  intro c hc
  unfold spanSign at hc
  split at hc
  · cases hc
  · next d ds =>
    split at hc
    · next hd =>
      obtain rfl := List.mem_singleton.1 hc
      simp only [Bool.or_eq_true, beq_iff_eq] at hd
      rcases hd with rfl | rfl <;> rfl
    · cases hc

theorem not_isBreak_spanExponent (cs : List Char) :
    ∀ c ∈ (spanExponent cs).1, isBreak c = false := by
  intro c hc
  unfold spanExponent at hc
  split at hc
  · cases hc
  · next mark ds =>
    split at hc
    · next hmark =>
      dsimp only at hc
      split at hc
      · cases hc
      · simp only [List.mem_cons, List.mem_append] at hc
        rcases hc with rfl | hc | hc
        · simp only [Bool.or_eq_true, beq_iff_eq] at hmark
          rcases hmark with rfl | rfl <;> rfl
        · exact not_isBreak_spanSign ds c hc
        · exact not_isBreak_of_isDigit (isDigit_of_mem_spanDigits hc)
    · cases hc

theorem not_isBreak_of_isIdentPart {c : Char} (h : isIdentPart c = true) : isBreak c = false := by
  have hblank := isBlank_of_class h (by decide)
  simp [isBreak, hblank, ne_of_class h (d := '#') rfl]

theorem not_isBreak_of_isIdentStart {c : Char} (h : isIdentStart c = true) :
    isBreak c = false := by
  have hblank := isBlank_of_class h (by decide)
  simp [isBreak, hblank, ne_of_class h (d := '#') rfl]

/-- A word is neither the end mark nor a number. -/
theorem ofWord_ne (name : String) : Kind.ofWord name ≠ .eof ∧ ∀ x, Kind.ofWord name ≠ .number x := by
  unfold Kind.ofWord
  split
  · exact ⟨nofun, nofun⟩
  split
  · exact ⟨nofun, nofun⟩
  split
  · exact ⟨nofun, nofun⟩
  split <;> exact ⟨nofun, nofun⟩

/-- A lexeme holds no blank and starts no comment, and it is not the end mark. -/
theorem munch_spec {c : Char} {cs : List Char} {l : Lexeme} (h : munch c cs = .ok l) :
    (∀ d ∈ l.text, isBreak d = false) ∧ l.kind ≠ .eof := by
  unfold munch at h
  split at h
  · unfold munchNumber at h
    dsimp only at h
    split at h
    · cases h
    · next fraction rest hfraction =>
      split at h
      · obtain rfl := Except.ok.inj h
        refine ⟨fun d hd => ?_, nofun⟩
        simp only [List.mem_append] at hd
        rcases hd with hd | hd | hd
        · exact not_isBreak_of_isDigit (isDigit_of_mem_spanDigits hd)
        · exact not_isBreak_fractionText (isDigit_of_mem_readFraction? hfraction) d hd
        · exact not_isBreak_spanExponent _ d hd
      · cases h
  split at h
  · next hstart =>
    obtain rfl := Except.ok.inj h
    refine ⟨fun d hd => ?_, ?_⟩
    · rcases List.mem_cons.1 hd with rfl | hd
      · exact not_isBreak_of_isIdentStart hstart
      · exact not_isBreak_of_isIdentPart (List.all_eq_true.1 List.all_takeWhile d hd)
    · exact (ofWord_ne _).1
  · split at h
    · next s _ =>
      obtain rfl := Except.ok.inj h
      refine ⟨?_, nofun⟩
      have hall : s.text.toList.all (fun d => !isBreak d) = true := by cases s <;> rfl
      intro d hd
      simpa using List.all_eq_true.1 hall d hd
    · cases h

theorem newline_notMem_of_munch {c : Char} {cs : List Char} {l : Lexeme} (h : munch c cs = .ok l) :
    '\n' ∉ l.text :=
  fun hmem => absurd ((munch_spec h).1 _ hmem) (by decide)

/-! ## Gaps and lexemes in turn -/

/-- The text at `p` is a gap and a lexeme in turn, up to a last gap, in front of the end mark. -/
inductive Spaced : Position → List Char → List (List Char) → List Token → Prop
  | done {p : Position} {gap : List Char} : skipTrivia false p gap = (p.afterText gap, []) →
    Spaced p gap [gap] [⟨.eof, p.afterText gap, 0⟩]
  | lexeme {p : Position} {gap cs : List Char} {c : Char} {l : Lexeme} {gaps : List (List Char)}
    {ts : List Token} : skipTrivia false p (gap ++ c :: cs) = (p.afterText gap, c :: cs) →
    munch c cs = .ok l → Spaced ((p.afterText gap).afterText l.text) l.rest gaps ts →
    Spaced p (gap ++ c :: cs) (gap :: gaps) (⟨l.kind, p.afterText gap, byteLength l.text⟩ :: ts)

theorem scanFrom_of_spaced {p : Position} {cs : List Char} {gaps : List (List Char)}
    {ts : List Token} (h : Spaced p cs gaps ts) (done : List Token) :
    scanFrom p cs done = .ok (done.reverse ++ ts) := by
  induction h generalizing done with
  | done hskip =>
    rw [scanFrom_end hskip]
    simp
  | lexeme hskip hmunch _ ih =>
    rw [scanFrom_step hskip hmunch, ih]
    simp

theorem spaced_of_scanFrom {p : Position} {cs : List Char} {done ts : List Token}
    (h : scanFrom p cs done = .ok ts) :
    ∃ gaps us, Spaced p cs gaps us ∧ ts = done.reverse ++ us := by
  induction p, cs, done using scanFrom.induct with
  | case1 p cs done q hs =>
    obtain ⟨gap, hgap, rfl⟩ := exists_gap hs
    obtain rfl : cs = gap := hgap.trans (List.append_nil gap)
    rw [scanFrom_of_spaced (.done hs)] at h
    exact ⟨[cs], _, .done hs, (Except.ok.inj h).symm⟩
  | case2 p cs done q c rest hs fault hm =>
    rw [scanFrom] at h
    split at h
    · next q' hs' => cases (Prod.mk.inj (hs'.symm.trans hs)).2
    · next q' c' rest' hs' =>
      obtain ⟨rfl, hcons⟩ := Prod.mk.inj (hs'.symm.trans hs)
      obtain ⟨rfl, rfl⟩ := List.cons.inj hcons
      split at h
      · cases h
      · next l hm' =>
        rw [hm] at hm'
        cases hm'
  | case3 p cs done q c rest hs l hm ih =>
    rw [scanFrom_step hs hm] at h
    obtain ⟨gaps, us, hus, rfl⟩ := ih h
    obtain ⟨gap, rfl, rfl⟩ := exists_gap hs
    exact ⟨gap :: gaps, _, .lexeme hs hm hus, by simp⟩

/-- **What scanning does.** -/
theorem scan_eq_ok_iff {source : String} {ts : List Token} :
    scan source = .ok ts ↔ ∃ gaps, Spaced .start source.toList gaps ts := by
  constructor
  · intro h
    obtain ⟨gaps, us, hus, rfl⟩ := spaced_of_scanFrom h
    exact ⟨gaps, hus⟩
  · rintro ⟨gaps, h⟩
    exact scanFrom_of_spaced h []

variable {p : Position} {cs : List Char} {gaps : List (List Char)} {ts : List Token}

theorem Spaced.endMarked (h : Spaced p cs gaps ts) : EndMarked ts := by
  induction h with
  | done => exact ⟨_, rfl, rfl⟩
  | lexeme _ _ hts ih =>
    obtain ⟨e, hlast, he⟩ := ih
    exact ⟨e, by rw [List.getLast?_cons, hlast]; rfl, he⟩

theorem endMarked_of_scan {source : String} (h : scan source = .ok ts) : EndMarked ts := by
  obtain ⟨gaps, hspaced⟩ := scan_eq_ok_iff.1 h
  exact hspaced.endMarked

/-- Each token starts where the gap before it ends, so not before the text. -/
theorem Spaced.before {q : Position} (h : Spaced p cs gaps ts) (hq : q.Before p) :
    ∀ t ∈ ts, q.Before t.position := by
  induction h generalizing q with
  | done =>
    intro t ht
    obtain rfl := List.mem_singleton.1 ht
    exact hq.afterText _
  | lexeme _ _ _ ih =>
    intro t ht
    rcases List.mem_cons.1 ht with rfl | ht
    · exact hq.afterText _
    · exact ih ((hq.afterText _).afterText _) t ht

/-- **Tokens stand one behind the other.** -/
theorem Spaced.increasing (h : Spaced p cs gaps ts) :
    ts.Pairwise fun t u => t.position.Before u.position := by
  induction h with
  | done => exact List.pairwise_singleton ..
  | lexeme _ hmunch hts ih =>
    refine List.pairwise_cons.2 ⟨?_, ih⟩
    exact hts.before (Position.before_afterText (munch_ne_nil hmunch) _)

theorem Spaced.length_eq (h : Spaced p cs gaps ts) : gaps.length = ts.length := by
  induction h with
  | done => rfl
  | lexeme _ _ _ ih => rw [List.length_cons, List.length_cons, ih]

/-- The first token stands behind the first gap. -/
theorem Spaced.head (h : Spaced p cs gaps ts) :
    ∃ gap gaps' t ts', gaps = gap :: gaps' ∧ ts = t :: ts' ∧ t.position = p.afterText gap := by
  cases h with
  | done => exact ⟨_, [], _, [], rfl, rfl, rfl⟩
  | lexeme => exact ⟨_, _, _, _, rfl, rfl, rfl⟩

/-- A token touches what follows if and only if no gap is between them. -/
theorem touches_afterText {t u : Token} {gap : List Char} (ht : EndsAt t p)
    (hu : u.position = p.afterText gap) : t.touches u = gap.isEmpty := by
  obtain ⟨hline, hcolumn⟩ := ht
  unfold Token.touches
  cases gap with
  | nil => simp [hu, hline, hcolumn, Position.afterText]
  | cons c gap =>
    have hbefore := Position.before_afterText (List.cons_ne_nil c gap) p
    rw [← hu] at hbefore
    simp only [hline, hcolumn, List.isEmpty_cons, Bool.and_eq_false_iff, beq_eq_false_iff_ne]
    unfold Position.Before at hbefore
    omega

/-- **Neighbours touch if and only if there is nothing between them.** -/
theorem Spaced.touches_iff (h : Spaced p cs gaps ts) {i : Nat} {t u : Token} {gap : List Char}
    (ht : ts[i]? = some t) (hu : ts[i + 1]? = some u) (hgap : gaps[i + 1]? = some gap) :
    t.touches u = gap.isEmpty := by
  induction h generalizing i with
  | done => cases hu
  | lexeme _ hmunch hts ih =>
    cases i with
    | zero =>
      obtain ⟨gap', gaps', u', us', rfl, rfl, hposition⟩ := hts.head
      obtain rfl := Option.some.inj hu
      obtain rfl := Option.some.inj hgap
      obtain rfl := Option.some.inj ht
      refine touches_afterText ?_ hposition
      rw [afterText_of_line (newline_notMem_of_munch hmunch)]
      exact ⟨rfl, rfl⟩
    | succ i => exact ih ht hu hgap

end Lexer

end GeoScript
