import GeoScript.Proofs.Lexing
import Mathlib.Data.List.DropRight

/-!
# Nothing is lost between the tokens

**Gaps** are blanks and comments. A comment runs to the end of its line; only behind the last token
may it run to the end of the text instead (`Gap`).

**Lexemes** are taken by looking at what follows, but what follows is not needed: a lexeme on its own
is taken whole, with the same kind (`munch_alone`). A number does not go on because its digits, its
fraction and its exponent each end where the lexeme says; and of two symbols the longer one is tried
first, so a symbol that was taken is the first one that fits itself.

**Places** count line ends and the bytes behind the last of them (`Position.behind`).

**Theorem (`scan_accounts`).** A text that can be scanned is gaps and lexemes in turn. Token by token
the lexemes have the lengths, the places and the kinds that the tokens say, and tokens touch just
where a gap is empty.
-/

namespace GeoScript

open Token (Kind)

/-! ## Bytes and places -/

theorem Lexer.byteLength_eq (cs : List Char) :
    byteLength cs = (String.ofList cs).utf8ByteSize := by
  induction cs with
  | nil => rfl
  | cons c cs ih =>
    have hsplit : String.ofList (c :: cs) = String.singleton c ++ String.ofList cs := by
      rw [← List.singleton_append, String.ofList_append]
      rfl
    rw [byteLength_cons, ih, hsplit, String.utf8ByteSize_append, String.utf8ByteSize_singleton]

/-- The place behind a text that starts at the first place: one line further for every line end, and
one column further for every byte behind the last of them. -/
def Position.behind (cs : List Char) : Position :=
  ⟨1 + cs.count '\n', 1 + (String.ofList (cs.rtakeWhile (· != '\n'))).utf8ByteSize⟩

theorem Position.afterText_start (cs : List Char) : start.afterText cs = behind cs := by
  induction cs using List.reverseRecOn with
  | nil => rfl
  | append_singleton cs c ih =>
    rw [afterText_append, ih, afterText, List.foldl_cons, List.foldl_nil, after]
    by_cases hc : c = '\n'
    · subst hc
      simp [behind, List.count_append, Nat.add_assoc]
    · simp [behind, List.count_append, hc, String.ofList_append, Nat.add_assoc]

namespace Lexer

/-! ## Gaps -/

/-- Blanks and comments. A comment without a line end can only stand at the end of the text. -/
inductive Gap (atEnd : Bool) : List Char → Prop
  | nil : Gap atEnd []
  | blank {c : Char} {cs : List Char} : isBlank c = true → Gap atEnd cs → Gap atEnd (c :: cs)
  | comment {body cs : List Char} : '\n' ∉ body → Gap atEnd cs →
    Gap atEnd ('#' :: (body ++ '\n' :: cs))
  | lastComment {body : List Char} : atEnd = true → '\n' ∉ body → Gap atEnd ('#' :: body)

/-- A comment may be longer. -/
theorem Gap.widen {atEnd : Bool} {c : Char} {cs : List Char} (h : Gap atEnd ('#' :: cs))
    (hc : c ≠ '\n') : Gap atEnd ('#' :: c :: cs) := by
  have hbody : ∀ {body : List Char}, '\n' ∉ body → '\n' ∉ c :: body := by
    intro body hbody
    simpa [Ne.symm hc] using hbody
  cases h with
  | blank hblank => cases hblank
  | comment hline hrest => exact .comment (hbody hline) hrest
  | lastComment hend hline => exact .lastComment hend (hbody hline)

/-- What is skipped is a gap. Inside a comment it is one together with the number sign. -/
theorem gap_of_skipTrivia {inComment : Bool} {p q : Position} {cs rest : List Char}
    (h : skipTrivia inComment p cs = (q, rest)) : ∃ gap, cs = gap ++ rest ∧
      Gap rest.isEmpty (if inComment then '#' :: gap else gap) := by
  induction cs generalizing inComment p with
  | nil =>
    obtain ⟨-, rfl⟩ := Prod.mk.inj h
    cases inComment with
    | false => exact ⟨[], rfl, .nil⟩
    | true => exact ⟨[], rfl, .lastComment rfl List.not_mem_nil⟩
  | cons c cs ih =>
    cases inComment with
    | true =>
      obtain ⟨gap, rfl, hgap⟩ := ih h
      refine ⟨c :: gap, rfl, ?_⟩
      by_cases hc : c = '\n'
      · subst hc
        have hbody : '\n' ∉ ([] : List Char) := List.not_mem_nil
        exact .comment hbody hgap
      · have hin : (c != '\n') = true := by simpa using hc
        rw [hin] at hgap
        exact Gap.widen hgap hc
    | false =>
      simp only [skipTrivia, Bool.false_eq_true, if_false] at h
      split at h
      · next hblank =>
        obtain ⟨gap, rfl, hgap⟩ := ih h
        exact ⟨c :: gap, rfl, .blank hblank hgap⟩
      split at h
      · next hcomment =>
        obtain ⟨gap, rfl, hgap⟩ := ih h
        rw [beq_iff_eq.1 hcomment]
        exact ⟨'#' :: gap, rfl, hgap⟩
      · obtain ⟨-, rfl⟩ := Prod.mk.inj h
        exact ⟨[], rfl, .nil⟩

/-- The gap in front of a text that was skipped up to there. -/
theorem gap_of_skipped {p q : Position} {gap rest : List Char}
    (h : skipTrivia false p (gap ++ rest) = (q, rest)) : Gap rest.isEmpty gap := by
  obtain ⟨gap', heq, hgap⟩ := gap_of_skipTrivia h
  rw [List.append_cancel_right heq]
  exact hgap

/-! ## Lexemes on their own -/

theorem spanDigits_alone {ds : List Char} (hds : ∀ c ∈ ds, c.isDigit = true) :
    Decimal.spanDigits ds = (ds, []) := by
  have hends : ∀ c ∈ ([] : List Char).head?, c.isDigit = false := nofun
  have hspan := spanDigits_append_of_ends hds hends
  rwa [List.append_nil] at hspan

/-- Digits are no sign. -/
theorem spanSign_of_digits {ds : List Char} (hds : ∀ c ∈ ds, c.isDigit = true) :
    spanSign ds = ([], ds) := by
  cases ds with
  | nil => rfl
  | cons d ds =>
    have hd := hds d List.mem_cons_self
    simp [spanSign, ne_of_class hd (d := '+') rfl, ne_of_class hd (d := '-') rfl]

theorem spanSign_alone (cs : List Char) {ds : List Char} (hds : ∀ c ∈ ds, c.isDigit = true) :
    spanSign ((spanSign cs).1 ++ ds) = ((spanSign cs).1, ds) := by
  cases cs with
  | nil => exact spanSign_of_digits hds
  | cons c cs =>
    by_cases hc : (c == '+' || c == '-') = true
    · simp [spanSign, hc]
    · have hnone : spanSign (c :: cs) = ([], c :: cs) := by simp [spanSign, hc]
      rw [hnone]
      exact spanSign_of_digits hds

/-- An exponent on its own is taken whole. -/
theorem spanExponent_alone (cs : List Char) :
    spanExponent (spanExponent cs).1 = ((spanExponent cs).1, []) := by
  cases cs with
  | nil => rfl
  | cons mark cs =>
    by_cases hmark : (mark == 'e' || mark == 'E') = true
    · have hdigits : ∀ c ∈ (Decimal.spanDigits (spanSign cs).2).1, c.isDigit = true :=
        fun _ => isDigit_of_mem_spanDigits
      by_cases hnone : (Decimal.spanDigits (spanSign cs).2).1.isEmpty = true
      · simp [spanExponent, hmark, hnone]
      · simp [spanExponent, hmark, hnone, spanSign_alone cs hdigits, spanDigits_alone hdigits]
    · simp [spanExponent, hmark]

/-- An exponent goes on with neither a digit nor a point. -/
theorem head_spanExponent (cs : List Char) :
    ∀ c ∈ (spanExponent cs).1.head?, c.isDigit = false ∧ c ≠ '.' := by
  intro c hc
  unfold spanExponent at hc
  split at hc
  · cases hc
  split at hc
  · next mark _ hmark =>
    dsimp only at hc
    split at hc
    · cases hc
    · obtain rfl := Option.some.inj hc
      simp only [Bool.or_eq_true, beq_iff_eq] at hmark
      rcases hmark with rfl | rfl <;> exact ⟨rfl, by decide⟩
  · cases hc

/-- **A number on its own** is taken whole. -/
theorem munchNumber_alone {cs : List Char} {l : Lexeme} (h : munchNumber cs = .ok l) :
    munchNumber l.text = .ok { l with rest := [] } := by
  unfold munchNumber at h
  dsimp only at h
  split at h
  · cases h
  · next fraction rest hfraction =>
    split at h
    · next x hread =>
      obtain rfl := Except.ok.inj h
      have hwhole : ∀ c ∈ (Decimal.spanDigits cs).1, c.isDigit = true :=
        fun _ => isDigit_of_mem_spanDigits
      have hdigits := isDigit_of_mem_readFraction? hfraction
      have hhead := head_spanExponent rest
      have hspan := spanDigits_append_of_ends hwhole
        (not_isDigit_fractionText (fun c hc => (hhead c hc).1) fraction)
      simp [munchNumber, hspan, readFraction?_fractionText_append hdigits hhead,
        spanExponent_alone, hread]
    · cases h

/-- A symbol starts neither a number nor a word. -/
theorem symbol_starts (s : Symbol) :
    ∃ c cs, s.text.toList = c :: cs ∧ startsNumber (c :: cs) = false ∧ isIdentStart c = false := by
  refine ⟨s.text.toList.headD ' ', s.text.toList.tail, ?_, ?_, ?_⟩ <;> cases s <;> rfl

/-- The first symbol that fits a text is the first one that fits itself. -/
theorem find?_symbol_alone {cs : List Char} {s : Symbol}
    (h : Symbol.all.find? (fun s => s.text.toList.isPrefixOf cs) = some s) :
    Symbol.all.find? (fun t => t.text.toList.isPrefixOf s.text.toList) = some s := by
  obtain ⟨hs, before, after, hall, hbefore⟩ := List.find?_eq_some_iff_append.1 h
  have hfits : s.text.toList <+: cs := List.isPrefixOf_iff_prefix.1 hs
  refine List.find?_eq_some_iff_append.2 ⟨?_, before, after, hall, fun t ht => ?_⟩
  · exact List.isPrefixOf_iff_prefix.2 List.prefix_rfl
  · -- A symbol that fits `s` fits the text too, so it does not stand before `s`.
    have hnot := hbefore t ht
    simp only [Bool.not_eq_true', ← Bool.not_eq_true, List.isPrefixOf_iff_prefix] at hnot ⊢
    exact fun hfit => hnot (hfit.trans hfits)

theorem takeWhile_takeWhile_self {p : Char → Bool} (cs : List Char) :
    (cs.takeWhile p).takeWhile p = cs.takeWhile p ∧ (cs.takeWhile p).dropWhile p = [] := by
  have hall := List.all_eq_true.1 (List.all_takeWhile (p := p) (l := cs))
  have hends : ∀ c ∈ ([] : List Char).head?, p c = false := nofun
  simpa using takeWhile_dropWhile_append hall hends

/-- A number starts with what starts a number, also on its own. -/
theorem startsNumber_alone {cs : List Char} {l : Lexeme} (hstart : startsNumber cs = true)
    (h : munchNumber cs = .ok l) : startsNumber l.text = true := by
  have happend := munchNumber_append h
  obtain ⟨c, text, htext⟩ := List.exists_cons_of_ne_nil (munchNumber_ne_nil h)
  rw [htext] at happend ⊢
  by_cases hc : c.isDigit = true
  · exact startsNumber_of_isDigit hc text
  · rw [← happend] at hstart
    cases text with
    | nil =>
      -- It starts with a point, and a point alone is no number.
      have halone := munchNumber_alone h
      rw [htext] at halone
      cases hrest : l.rest with
      | nil =>
        rw [hrest] at hstart
        exact absurd hstart hc
      | cons d rest =>
        simp only [hrest, startsNumber, List.cons_append, List.nil_append, Bool.or_eq_true,
          Bool.and_eq_true, beq_iff_eq, hc, Bool.false_eq_true, false_or] at hstart
        rw [hstart.1] at halone
        cases halone
    | cons d text => exact hstart

/-- **A lexeme on its own** is taken whole, with the same kind. -/
theorem munch_alone {c : Char} {cs : List Char} {l : Lexeme} (h : munch c cs = .ok l) :
    ∃ d ds, l.text = d :: ds ∧ munch d ds = .ok { l with rest := [] } := by
  obtain ⟨d, ds, htext⟩ := List.exists_cons_of_ne_nil (munch_ne_nil h)
  refine ⟨d, ds, htext, ?_⟩
  have hd : d = c := by
    have happend := munch_append h
    rw [htext] at happend
    exact (List.cons.inj happend).1
  unfold munch at h ⊢
  split at h
  · next hnumber =>
    rw [← htext, if_pos (startsNumber_alone hnumber h)]
    exact munchNumber_alone h
  next hnumber =>
  split at h
  · next hident =>
    obtain rfl := Except.ok.inj h
    obtain ⟨-, rfl⟩ := List.cons.inj htext
    subst hd
    obtain ⟨htake, hdrop⟩ := takeWhile_takeWhile_self (p := isIdentPart) cs
    simp [startsNumber_of_isIdentStart hident, hident, munchWord, htake, hdrop]
  next hident =>
  split at h
  · next s hs =>
    obtain rfl := Except.ok.inj h
    obtain ⟨d', ds', hcons, hnumber', hident'⟩ := symbol_starts s
    obtain ⟨rfl, rfl⟩ := List.cons.inj (hcons.symm.trans htext)
    have hfind := find?_symbol_alone hs
    rw [hcons] at hfind
    simp [hnumber', hident', hfind, hcons]
  · cases h

/-! ## Gaps and lexemes of a text -/

/-- A gap and a lexeme in turn, up to a last gap. -/
def interlaced : List (List Char) → List (List Char) → List Char
  | gap :: gaps, lexeme :: lexemes => gap ++ (lexeme ++ interlaced gaps lexemes)
  | gaps, _ => gaps.flatten

/-- The text is scanned as one token of the kind, which covers all of it. -/
def ScansAs (kind : Kind) (text : List Char) : Prop :=
  scan (String.ofList text) = .ok [⟨kind, .start, (String.ofList text).utf8ByteSize⟩,
    ⟨.eof, .behind text, 0⟩]

/-- A lexeme is scanned on its own as the token that it is. -/
theorem scansAs_of_munch {c : Char} {cs : List Char} {l : Lexeme}
    (h : munch c cs = .ok l) : ScansAs l.kind l.text := by
  obtain ⟨d, ds, htext, halone⟩ := munch_alone h
  have hbreak := (munch_spec h).1 d (by simp [htext])
  simp only [isBreak, Bool.or_eq_false_iff, beq_eq_false_iff_ne] at hbreak
  have hskip := skipTrivia_stop hbreak.1 hbreak.2 .start ds
  rw [ScansAs, scan, String.toList_ofList]
  nth_rewrite 1 [htext]
  rw [scanFrom_step hskip halone, scanFrom_nil, byteLength_eq, Position.afterText_start]
  rfl

variable {p : Position} {cs : List Char} {gaps : List (List Char)} {ts : List Token}

/-- The end mark stands behind the whole text. -/
theorem Spaced.getLast?_eq (h : Spaced p cs gaps ts) :
    ts.getLast? = some ⟨.eof, p.afterText cs, 0⟩ := by
  induction h with
  | done => rfl
  | @lexeme p gap cs c l _ _ _ hmunch _ ih =>
    rw [List.getLast?_cons, ih, Position.afterText_append, ← munch_append hmunch,
      Position.afterText_append]
    rfl

/-- All gaps are gaps, and only the last may end within a comment. -/
theorem Spaced.gap (h : Spaced p cs gaps ts) {i : Nat} {gap : List Char}
    (hgap : gaps[i]? = some gap) : Gap (i + 1 == gaps.length) gap := by
  induction h generalizing i with
  | done hskip =>
    cases i with
    | zero =>
      rw [Option.some.inj hgap, ← List.append_nil gap] at hskip
      exact gap_of_skipped hskip
    | succ i => cases hgap
  | lexeme hskip _ hts ih =>
    obtain ⟨gap', gaps', -, -, rfl, -⟩ := hts.head
    cases i with
    | zero =>
      obtain rfl := Option.some.inj hgap
      exact gap_of_skipped hskip
    | succ i => simpa using ih hgap

/-- **The lexemes of a text.** -/
theorem Spaced.exists_lexemes (h : Spaced p cs gaps ts) : ∃ lexemes,
    cs = interlaced gaps lexemes ∧ ts.length = lexemes.length + 1 ∧
    ∀ i lexeme, lexemes[i]? = some lexeme → ∃ t, ts[i]? = some t ∧ t.kind ≠ .eof ∧
      t.length = byteLength lexeme ∧
      t.position = p.afterText (interlaced (gaps.take (i + 1)) (lexemes.take i)) ∧
      ScansAs t.kind lexeme := by
  induction h with
  | @done p gap => exact ⟨[], by simp [interlaced], rfl, nofun⟩
  | @lexeme p gap cs c l gaps ts _ hmunch _ ih =>
    obtain ⟨lexemes, hcs, hlength, hlexemes⟩ := ih
    refine ⟨l.text :: lexemes, ?_, by simp [hlength], fun i lexeme hi => ?_⟩
    · rw [interlaced, ← hcs, munch_append hmunch]
    cases i with
    | zero =>
      obtain rfl := Option.some.inj hi
      refine ⟨_, rfl, (munch_spec hmunch).2, rfl, by simp [interlaced], ?_⟩
      exact scansAs_of_munch hmunch
    | succ i =>
      obtain ⟨t, ht, hkind, hlen, hposition, hscans⟩ := hlexemes i lexeme hi
      refine ⟨t, ht, hkind, hlen, ?_, hscans⟩
      rw [hposition, List.take_succ_cons, List.take_succ_cons, interlaced,
        Position.afterText_append, Position.afterText_append]

/-- An account of a text by its gaps and lexemes, and of what its tokens say about them. -/
structure Account (source : List Char) (gaps lexemes : List (List Char)) (ts : List Token) :
    Prop where
  text : source = interlaced gaps lexemes
  gaps_length : gaps.length = lexemes.length + 1
  tokens_length : ts.length = lexemes.length + 1
  /-- Only the last gap may end within a comment. -/
  gap {i : Nat} {gap : List Char} : gaps[i]? = some gap → Gap (i + 1 == gaps.length) gap
  /-- A token has the length, the place and the kind of its lexeme. -/
  lexeme {i : Nat} {lexeme : List Char} : lexemes[i]? = some lexeme → ∃ t, ts[i]? = some t ∧
    t.kind ≠ .eof ∧ t.length = (String.ofList lexeme).utf8ByteSize ∧
    t.position = .behind (interlaced (gaps.take (i + 1)) (lexemes.take i)) ∧
    ScansAs t.kind lexeme
  /-- The end mark covers nothing and stands behind everything. -/
  last : ts.getLast? = some ⟨.eof, .behind source, 0⟩
  touches {i : Nat} {t u : Token} {gap : List Char} : ts[i]? = some t → ts[i + 1]? = some u →
    gaps[i + 1]? = some gap → (t.touches u = true ↔ gap = [])

/-- **Scanning loses nothing**, and tokens say where their lexemes stand. -/
theorem scan_accounts {source : String} {ts : List Token} (h : scan source = .ok ts) :
    ∃ gaps lexemes, Account source.toList gaps lexemes ts := by
  obtain ⟨gaps, hspaced⟩ := scan_eq_ok_iff.1 h
  obtain ⟨lexemes, htext, hlength, hlexemes⟩ := hspaced.exists_lexemes
  have hlast := hspaced.getLast?_eq
  rw [Position.afterText_start] at hlast
  refine ⟨gaps, lexemes, htext, hspaced.length_eq.trans hlength, hlength, hspaced.gap, ?_, hlast, ?_⟩
  · intro i lexeme hi
    obtain ⟨t, ht, hkind, hbytes, hposition, hscans⟩ := hlexemes i lexeme hi
    rw [byteLength_eq] at hbytes
    rw [Position.afterText_start] at hposition
    exact ⟨t, ht, hkind, hbytes, hposition, hscans⟩
  · intro i t u gap ht hu hgap
    rw [hspaced.touches_iff ht hu hgap, List.isEmpty_iff]

/-- The tokens of a text with a comment that has a letter of two bytes and ends in two characters,
with two lexemes side by side, and with a comment up to its end. -/
def commented : List Token :=
  [⟨.number 1, ⟨1, 1⟩, 1⟩, ⟨.symbol .pipeGreater, ⟨2, 1⟩, 2⟩, ⟨.number 2, ⟨2, 3⟩, 1⟩,
    ⟨.eof, ⟨2, 5⟩, 0⟩]

theorem scan_commented : scan "1 # né\r\n|>2#" = .ok commented :=
  (scanFrom_step rfl rfl []).trans <| (scanFrom_step rfl rfl _).trans <|
    (scanFrom_step rfl rfl _).trans (scanFrom_end rfl _)

theorem scan_accounts_commented : scan "1 # né\r\n|>2#" = .ok commented ∧
    ∃ gaps lexemes, Account "1 # né\r\n|>2#".toList gaps lexemes commented :=
  ⟨scan_commented, scan_accounts scan_commented⟩

end Lexer

end GeoScript
