import GeoScript.Token.Lexer

/-!
# Scanning what was written

**Pieces.** A text on one line is written piece by piece. Each piece is a token of a given kind with
its text; it is *glued* when it has to touch the piece before it. Whether other pieces have a blank
before them is a matter of the *layout*; it may be left out before the first piece and behind an
opening parenthesis.

**Theorem (`scan_written`).** If every piece is taken whole at the front of what is written from
it on, then scanning gives the pieces back, and the end mark behind them. Glued tokens touch the
token before them; the others do not, or stand behind a parenthesis or a comma (`Marked`). This is
all that reading coordinates needs to know about places.

**Which pieces are taken whole.** Parentheses, commas and minus signs always are; words and numbers
are in front of a blank, a comma, a closing parenthesis or the end.
-/

namespace GeoScript

/-! ## Marks -/

/-- What a reader of tokens goes by. -/
structure Mark where
  /-- The token touches the one before it. -/
  glued : Bool
  kind : Token.Kind

/-- A sign at `t` can be the sign of a coordinate as far as the token `u` before it goes. -/
def Token.Apart (u t : Token) : Prop :=
  u.touches t = false ∨ u.kind = .symbol .lparen ∨ u.kind = .symbol .comma

/-- The token `t` is as marked; `previous` stands before it. -/
structure Mark.Fits (m : Mark) (previous : Option Token) (t : Token) : Prop where
  kind : t.kind = m.kind
  touches : m.glued = true → ∀ u ∈ previous, u.touches t = true
  apart : m.glued = false → ∀ u ∈ previous, u.Apart t

/-- The tokens are as marked; `previous` stands before them. -/
def Marked : Option Token → List Mark → List Token → Prop
  | _, [], [] => True
  | previous, m :: ms, t :: ts => m.Fits previous t ∧ Marked (some t) ms ts
  | _, _, _ => False

theorem Marked.length_eq {previous : Option Token} {ms : List Mark} {ts : List Token}
    (h : Marked previous ms ts) : ts.length = ms.length := by
  induction ms generalizing previous ts with
  | nil =>
    cases ts with
    | nil => rfl
    | cons t ts => cases h
  | cons m ms ih =>
    cases ts with
    | nil => cases h
    | cons t ts => rw [List.length_cons, List.length_cons, ih h.2]

/-- Marks side by side mark tokens side by side. -/
theorem Marked.split {previous : Option Token} {ms ns : List Mark} {ts : List Token}
    (h : Marked previous (ms ++ ns) ts) : ∃ ts₁ ts₂, ts = ts₁ ++ ts₂ ∧ Marked previous ms ts₁ ∧
      Marked (ts₁.getLast?.or previous) ns ts₂ := by
  induction ms generalizing previous ts with
  | nil => exact ⟨[], ts, rfl, trivial, h⟩
  | cons m ms ih =>
    cases ts with
    | nil => cases h
    | cons t ts =>
      obtain ⟨ts₁, ts₂, rfl, h₁, h₂⟩ := ih h.2
      refine ⟨t :: ts₁, ts₂, rfl, ⟨h.1, h₁⟩, ?_⟩
      have hlast : (t :: ts₁).getLast?.or previous = ts₁.getLast?.or (some t) := by
        rw [List.getLast?_cons]
        cases ts₁.getLast? <;> rfl
      rw [hlast]
      exact h₂

namespace Lexer

open Token (Kind)

/-! ## Pieces -/

/-- A token as it is written. -/
structure Piece where
  /-- No blank may stand before the piece. -/
  glued : Bool
  kind : Kind
  text : List Char

def Piece.mark (x : Piece) : Mark := ⟨x.glued, x.kind⟩

/-- Whether a blank is written behind a token of the given kind, or at the start, before a piece
that is not glued. -/
abbrev Layout := Option Kind → Bool

/-- Blanks everywhere but behind opening parentheses. -/
def Layout.compact : Layout := fun previous =>
  previous.isSome && previous != some (.symbol .lparen)

/-- Blanks everywhere. -/
def Layout.spread : Layout := Option.isSome

/-- Blanks are left out only behind opening parentheses. -/
def Layout.Parts (L : Layout) : Prop := ∀ k, L (some k) = false → k = .symbol .lparen

theorem Layout.parts_compact : compact.Parts := by
  intro k h
  simpa [compact] using h

theorem Layout.parts_spread : spread.Parts := by
  intro k h
  cases h

/-- Whether a blank is written before a piece that follows a token of the given kind. -/
def Piece.spaced (x : Piece) (L : Layout) (previous : Option Kind) : Bool := !x.glued && L previous

/-- The text of pieces that follow a token of the given kind. -/
def written (L : Layout) : Option Kind → List Piece → List Char
  | _, [] => []
  | previous, x :: xs =>
    (if x.spaced L previous then ' ' :: x.text else x.text) ++ written L (some x.kind) xs

variable {L : Layout}

/-- The kind of the last of the pieces, or of what stands before them. -/
def lastKind (previous : Option Kind) (xs : List Piece) : Option Kind :=
  xs.getLast?.elim previous fun x => some x.kind

theorem lastKind_cons (previous : Option Kind) (x : Piece) (xs : List Piece) :
    lastKind previous (x :: xs) = lastKind (some x.kind) xs := by
  rw [lastKind, lastKind, List.getLast?_cons]
  cases xs.getLast? <;> rfl

theorem written_append (previous : Option Kind) (xs ys : List Piece) :
    written L previous (xs ++ ys) =
      written L previous xs ++ written L (lastKind previous xs) ys := by
  induction xs generalizing previous with
  | nil => rfl
  | cons x xs ih => rw [List.cons_append, written, written, ih, lastKind_cons, List.append_assoc]

/-- The piece is taken whole from the front of a text that goes on with `rest`. -/
structure Piece.Scans (x : Piece) (rest : List Char) : Prop where
  line : '\n' ∉ x.text
  taken : ∃ c cs, x.text = c :: cs ∧ isBlank c = false ∧ c ≠ '#' ∧
    munch c (cs ++ rest) = .ok ⟨x.kind, x.text, rest⟩

/-- Every piece is taken whole where it stands. -/
def ScansAll (L : Layout) : List Piece → List Char → Prop
  | [], _ => True
  | x :: xs, rest => x.Scans (written L (some x.kind) xs ++ rest) ∧ ScansAll L xs rest

theorem scansAll_append {xs ys : List Piece} {rest : List Char} (previous : Option Kind)
    (hx : ScansAll L xs (written L (lastKind previous xs) ys ++ rest)) (hy : ScansAll L ys rest) :
    ScansAll L (xs ++ ys) rest := by
  induction xs generalizing previous with
  | nil => exact hy
  | cons x xs ih =>
    rw [lastKind_cons] at hx
    refine ⟨?_, ih _ hx.2⟩
    show x.Scans (written L (some x.kind) (xs ++ ys) ++ rest)
    rw [written_append, List.append_assoc]
    exact hx.1

/-! ## Places -/

/-- Where a piece begins that is written at `p`. -/
def Piece.start (x : Piece) (L : Layout) (previous : Option Kind) (p : Position) : Position :=
  if x.spaced L previous then p.after ' ' else p

/-- Where the next piece is written. -/
def Piece.stop (x : Piece) (L : Layout) (previous : Option Kind) (p : Position) : Position :=
  (x.start L previous p).afterText x.text

/-- The token of a piece that is written at `p`. -/
def Piece.token (x : Piece) (L : Layout) (previous : Option Kind) (p : Position) : Token :=
  ⟨x.kind, x.start L previous p, byteLength x.text⟩

/-- The tokens of pieces that are written from `p` on. -/
def placed (L : Layout) : Option Kind → Position → List Piece → List Token
  | _, _, [] => []
  | previous, p, x :: xs =>
    x.token L previous p :: placed L (some x.kind) (x.stop L previous p) xs

/-- Where the last of the pieces ends. -/
def endOf (L : Layout) : Option Kind → Position → List Piece → Position
  | _, p, [] => p
  | previous, p, x :: xs => endOf L (some x.kind) (x.stop L previous p) xs

/-! ## The loop -/

theorem skipTrivia_stop {c : Char} (hb : isBlank c = false) (hc : c ≠ '#') (p : Position)
    (cs : List Char) : skipTrivia false p (c :: cs) = (p, c :: cs) := by
  simp [skipTrivia, hb, hc]

theorem skipTrivia_written {x : Piece} {c : Char} {cs : List Char} (ht : x.text = c :: cs)
    (hb : isBlank c = false) (hc : c ≠ '#') (previous : Option Kind) (p : Position)
    (rest : List Char) :
    skipTrivia false p ((if x.spaced L previous then ' ' :: x.text else x.text) ++ rest) =
      (x.start L previous p, c :: (cs ++ rest)) := by
  unfold Piece.start
  cases x.spaced L previous with
  | false =>
    simp only [ht, Bool.false_eq_true, if_false, List.cons_append]
    exact skipTrivia_stop hb hc p _
  | true =>
    simp only [ht, if_true, List.cons_append]
    rw [skipTrivia]
    simpa [isBlank] using skipTrivia_stop hb hc (p.after ' ') (cs ++ rest)

theorem scanFrom_end {p q : Position} {cs : List Char} (hs : skipTrivia false p cs = (q, []))
    (done : List Token) : scanFrom p cs done = .ok (⟨.eof, q, 0⟩ :: done).reverse := by
  rw [scanFrom]
  split
  · next q' hs' =>
    obtain ⟨rfl, -⟩ := Prod.mk.inj (hs'.symm.trans hs)
    rfl
  · next q' c rest hs' => cases (Prod.mk.inj (hs'.symm.trans hs)).2

theorem scanFrom_nil (p : Position) (done : List Token) :
    scanFrom p [] done = .ok (⟨.eof, p, 0⟩ :: done).reverse :=
  scanFrom_end rfl done

theorem scanFrom_step {p q : Position} {c : Char} {cs rest : List Char} {l : Lexeme}
    (hs : skipTrivia false p cs = (q, c :: rest)) (hm : munch c rest = .ok l) (done : List Token) :
    scanFrom p cs done =
      scanFrom (q.afterText l.text) l.rest (⟨l.kind, q, byteLength l.text⟩ :: done) := by
  rw [scanFrom]
  split
  · next q' hs' => cases (Prod.mk.inj (hs'.symm.trans hs)).2
  · next q' c' rest' hs' =>
    obtain ⟨rfl, hcons⟩ := Prod.mk.inj (hs'.symm.trans hs)
    obtain ⟨rfl, rfl⟩ := List.cons.inj hcons
    split
    · next fault hm' =>
      rw [hm] at hm'
      cases hm'
    · next l' hm' =>
      obtain rfl := Except.ok.inj (hm.symm.trans hm')
      rfl

/-- Scanning gives the pieces back, each with the place where it was written. -/
theorem scanFrom_written {xs : List Piece} (hx : ScansAll L xs []) (previous : Option Kind)
    (p : Position) (done : List Token) :
    scanFrom p (written L previous xs) done =
      .ok (done.reverse ++ placed L previous p xs ++ [⟨.eof, endOf L previous p xs, 0⟩]) := by
  induction xs generalizing previous p done with
  | nil =>
    rw [written, scanFrom_nil]
    simp [placed, endOf]
  | cons x xs ih =>
    obtain ⟨⟨-, c, cs, ht, hb, hc, hm⟩, hxs⟩ := hx
    rw [List.append_nil] at hm
    rw [written, scanFrom_step (skipTrivia_written ht hb hc previous p _) hm, ih hxs]
    simp [placed, endOf, Piece.stop, Piece.token]

/-! ## Neighbours -/

/-- The token ends at a place. -/
def EndsAt (t : Token) (p : Position) : Prop :=
  t.position.line = p.line ∧ t.position.column + t.length = p.column

theorem byteLength_cons (c : Char) (cs : List Char) :
    byteLength (c :: cs) = c.utf8Size + byteLength cs := by
  have hshift : ∀ (cs : List Char) (n : Nat),
      cs.foldl (fun n c => n + c.utf8Size) n = n + byteLength cs := by
    intro cs
    induction cs with
    | nil => exact fun n => rfl
    | cons d cs ih =>
      intro n
      rw [byteLength, List.foldl_cons, List.foldl_cons, ih, ih]
      omega
  rw [byteLength, List.foldl_cons, hshift]
  omega

/-- Within a line a text moves on by its length. -/
theorem afterText_of_line {cs : List Char} (h : '\n' ∉ cs) (p : Position) :
    p.afterText cs = ⟨p.line, p.column + byteLength cs⟩ := by
  induction cs generalizing p with
  | nil => rfl
  | cons c cs ih =>
    have hc : c ≠ '\n' := fun heq => h (heq ▸ List.mem_cons_self)
    have hafter : p.after c = ⟨p.line, p.column + c.utf8Size⟩ := by simp [Position.after, hc]
    rw [Position.afterText, List.foldl_cons, hafter, byteLength_cons]
    have hrest := ih (fun hmem => h (List.mem_cons_of_mem _ hmem)) ⟨p.line, p.column + c.utf8Size⟩
    rw [Position.afterText] at hrest
    rw [hrest, Nat.add_assoc]

/-- A piece touches what ends where it is written, unless there is a blank. -/
theorem touches_token {t : Token} {p : Position} (ht : EndsAt t p) (x : Piece)
    (previous : Option Kind) : t.touches (x.token L previous p) = !x.spaced L previous := by
  obtain ⟨hline, hcolumn⟩ := ht
  unfold Token.touches Piece.token Piece.start
  cases x.spaced L previous with
  | false => simp [hline, hcolumn]
  | true =>
    have hblank : p.after ' ' = ⟨p.line, p.column + 1⟩ := rfl
    simp [hline, hcolumn, hblank]

/-- The token of a piece is as the piece is marked. -/
theorem fits_token (hL : L.Parts) {u : Option Token} {p : Position} (hu : ∀ t ∈ u, EndsAt t p)
    (x : Piece) :
    x.mark.Fits u (x.token L (u.map Token.kind) p) where
  kind := rfl
  touches hg t ht := by
    have hglued : x.glued = true := hg
    rw [touches_token (hu t ht), Piece.spaced, hglued]
    rfl
  apart hg t ht := by
    have hglued : x.glued = false := hg
    obtain rfl := Option.mem_def.1 ht
    unfold Token.Apart
    rw [touches_token (hu t ht), Piece.spaced, hglued]
    by_cases hk : t.kind = .symbol .lparen
    · exact Or.inr (Or.inl hk)
    · refine Or.inl ?_
      cases hblank : L (some t.kind) with
      | false => exact absurd (hL _ hblank) hk
      | true => simp [hblank]

theorem marked_placed (hL : L.Parts) {xs : List Piece} (hx : ∀ x ∈ xs, '\n' ∉ x.text) {p : Position}
    {u : Option Token} (hu : ∀ t ∈ u, EndsAt t p) :
    Marked u (xs.map Piece.mark) (placed L (u.map Token.kind) p xs) := by
  induction xs generalizing p u with
  | nil => trivial
  | cons x xs ih =>
    refine ⟨fits_token hL hu x, ?_⟩
    refine ih (u := some (x.token L _ p)) (fun y hy => hx y (List.mem_cons_of_mem _ hy)) ?_
    intro t ht
    obtain rfl := Option.mem_some_iff.1 ht
    rw [Piece.stop, afterText_of_line (hx x List.mem_cons_self)]
    exact ⟨rfl, rfl⟩

theorem line_of_scansAll {xs : List Piece} {rest : List Char} (hx : ScansAll L xs rest) :
    ∀ x ∈ xs, '\n' ∉ x.text := by
  induction xs with
  | nil => simp
  | cons y xs ih =>
    intro x hmem
    rcases List.mem_cons.1 hmem with rfl | hmem
    · exact hx.1.line
    · exact ih hx.2 x hmem

/-- **Scanning a written text** gives tokens that are marked as they were written, and an end
mark. -/
theorem scan_written (hL : L.Parts) {xs : List Piece} (hx : ScansAll L xs []) {source : String}
    (hs : source.toList = written L none xs) :
    ∃ ts e, scan source = .ok (ts ++ [e]) ∧ Marked none (xs.map Piece.mark) ts ∧ e.kind = .eof := by
  refine ⟨placed L none .start xs, ⟨.eof, endOf L none .start xs, 0⟩, ?_, ?_, rfl⟩
  · rw [scan, hs, scanFrom_written hx]
    rfl
  · exact marked_placed hL (u := none) (line_of_scansAll hx) fun u hu => by cases hu

/-! ## Single pieces -/

/-- Nothing, or a character that no number and no word goes on with. -/
def Ends (rest : List Char) : Prop := ∀ c ∈ rest.head?, c = ' ' ∨ c = ',' ∨ c = ')'

/-- Parentheses, commas and minus signs are taken alone, whatever follows. -/
theorem scans_symbol {s : Symbol} (hs : s ∈ [.lparen, .rparen, .comma, .minus]) (glued : Bool)
    (rest : List Char) : (⟨glued, .symbol s, s.text.toList⟩ : Piece).Scans rest := by
  simp only [List.mem_cons, List.not_mem_nil, or_false] at hs
  rcases hs with rfl | rfl | rfl | rfl
  · exact ⟨(by decide : '\n' ∉ ['(']), '(', [], rfl, rfl, by decide, by cases rest <;> rfl⟩
  · exact ⟨(by decide : '\n' ∉ [')']), ')', [], rfl, rfl, by decide, by cases rest <;> rfl⟩
  · exact ⟨(by decide : '\n' ∉ [',']), ',', [], rfl, rfl, by decide, by cases rest <;> rfl⟩
  · exact ⟨(by decide : '\n' ∉ ['-']), '-', [], rfl, rfl, by decide, by cases rest <;> rfl⟩

/-- Nothing, or a blank. -/
def BlankNext (rest : List Char) : Prop := ∀ c ∈ rest.head?, c = ' '

theorem BlankNext.ends {rest : List Char} (h : BlankNext rest) : Ends rest :=
  fun c hc => .inl (h c hc)

/-- In front of a blank every symbol is taken alone. -/
theorem scans_symbol_blank (s : Symbol) (glued : Bool) {rest : List Char} (hr : BlankNext rest) :
    (⟨glued, .symbol s, s.text.toList⟩ : Piece).Scans rest := by
  refine ⟨?_, s.text.toList.headD ' ', s.text.toList.tail, ?_, ?_, ?_, ?_⟩
  · show '\n' ∉ s.text.toList
    cases s <;> decide
  · cases s <;> rfl
  · cases s <;> rfl
  · cases s <;> decide
  · cases rest with
    | nil => cases s <;> rfl
    | cons c rest =>
      obtain rfl := hr c rfl
      cases s <;> rfl

/-- A prefix of characters of a class is split off where the class ends. -/
theorem takeWhile_dropWhile_append {α : Type} {p : α → Bool} {cs rest : List α}
    (hcs : ∀ c ∈ cs, p c = true) (hrest : ∀ c ∈ rest.head?, p c = false) :
    (cs ++ rest).takeWhile p = cs ∧ (cs ++ rest).dropWhile p = rest := by
  rw [List.takeWhile_append_of_pos hcs, List.dropWhile_append_of_pos hcs]
  cases rest with
  | nil => simp
  | cons c rest =>
    have hc := hrest c rfl
    simp [hc]

/-- A character of a class is none that is not in it. -/
theorem ne_of_class {p : Char → Bool} {c d : Char} (hc : p c = true) (hd : p d = false) : c ≠ d := by
  rintro rfl
  rw [hc] at hd
  cases hd

/-- Letters and digits are no blanks. -/
theorem isBlank_of_class {p : Char → Bool} {c : Char} (hc : p c = true)
    (hp : [' ', '\t', '\r', '\n'].any p = false) : isBlank c = false := by
  have hne : ∀ d ∈ [' ', '\t', '\r', '\n'], c ≠ d := fun d hd =>
    ne_of_class hc (Bool.eq_false_iff.2 (List.any_eq_false.1 hp d hd))
  simp only [List.forall_mem_cons] at hne
  simp [isBlank, hne]

theorem isDigit_of_isLetter {c : Char} (hc : isLetter c = true) : c.isDigit = false := by
  simp only [isLetter, Char.le_def, UInt32.le_iff_toNat_le, Bool.or_eq_true, Bool.and_eq_true,
    decide_eq_true_eq] at hc
  simp only [Char.isDigit, Bool.and_eq_false_iff, decide_eq_false_iff_not, ge_iff_le,
    UInt32.le_iff_toNat_le]
  simp at hc ⊢
  omega

theorem not_isIdentPart_of_ends {rest : List Char} (hr : Ends rest) :
    ∀ c ∈ rest.head?, isIdentPart c = false := by
  intro c hc
  rcases hr c hc with rfl | rfl | rfl <;> rfl

/-- A word starts no number. -/
theorem startsNumber_of_isIdentStart {c : Char} (hc : isIdentStart c = true) (cs : List Char) :
    startsNumber (c :: cs) = false := by
  have hdigit : c.isDigit = false := by
    rcases Bool.or_eq_true _ _ ▸ hc with hletter | hdollar
    · exact isDigit_of_isLetter hletter
    · rw [beq_iff_eq.1 hdollar]
      rfl
  cases cs with
  | nil => exact hdigit
  | cons d cs => simp [startsNumber, hdigit, ne_of_class hc (d := '.') rfl]

/-- Whatever starts with a digit starts with a number. -/
theorem startsNumber_of_isDigit {c : Char} (hc : c.isDigit = true) (cs : List Char) :
    startsNumber (c :: cs) = true := by
  cases cs with
  | nil => exact hc
  | cons d cs => simp [startsNumber, hc]

/-- A word is taken whole. -/
theorem scans_ident {c : Char} {cs rest : List Char} (hc : isIdentStart c = true)
    (hcs : ∀ d ∈ cs, isIdentPart d = true) (hr : Ends rest) (glued : Bool) :
    (⟨glued, .ofWord (String.ofList (c :: cs)), c :: cs⟩ : Piece).Scans rest := by
  obtain ⟨htake, hdrop⟩ := takeWhile_dropWhile_append hcs (not_isIdentPart_of_ends hr)
  refine ⟨?_, c, cs, rfl, isBlank_of_class hc (by decide), ne_of_class hc rfl, ?_⟩
  · intro hmem
    rcases List.mem_cons.1 hmem with heq | hmem
    · exact ne_of_class hc rfl heq.symm
    · exact absurd (hcs _ hmem) (by decide)
  rw [munch, startsNumber_of_isIdentStart hc]
  simp [hc, munchWord, htake, hdrop]

/-- A word of letters is taken whole. -/
theorem scans_word {cs rest : List Char} (hne : cs ≠ []) (hcs : ∀ c ∈ cs, isLetter c = true)
    (hr : Ends rest) (glued : Bool) :
    (⟨glued, .ofWord (String.ofList cs), cs⟩ : Piece).Scans rest := by
  obtain ⟨c, cs, rfl⟩ := List.exists_cons_of_ne_nil hne
  refine scans_ident ?_ (fun d hd => ?_) hr glued
  · simp [isIdentStart, hcs c List.mem_cons_self]
  · simp [isIdentPart, hcs d (List.mem_cons_of_mem _ hd)]

theorem not_isDigit_of_ends {rest : List Char} (hr : Ends rest) :
    ∀ c ∈ rest.head?, c.isDigit = false := by
  intro c hc
  rcases hr c hc with rfl | rfl | rfl <;> rfl

theorem spanDigits_append_of_ends {ds rest : List Char} (hds : ∀ c ∈ ds, c.isDigit = true)
    (hrest : ∀ c ∈ rest.head?, c.isDigit = false) :
    Decimal.spanDigits (ds ++ rest) = (ds, rest) := by
  obtain ⟨htake, hdrop⟩ := takeWhile_dropWhile_append hds hrest
  rw [Decimal.spanDigits, htake, hdrop]

theorem not_isDigit_fractionText {rest : List Char} (hr : ∀ c ∈ rest.head?, c.isDigit = false)
    (ds : List Char) : ∀ c ∈ (fractionText ds ++ rest).head?, c.isDigit = false := by
  intro c hc
  cases ds with
  | nil => exact hr c hc
  | cons d ds =>
    obtain rfl : '.' = c := Option.some.inj hc
    rfl

theorem not_isDigit_of_fractionText {rest : List Char} (hr : Ends rest) (ds : List Char) :
    ∀ c ∈ (fractionText ds ++ rest).head?, c.isDigit = false :=
  not_isDigit_fractionText (not_isDigit_of_ends hr) ds

/-- A fraction is read whole in front of what is neither a digit nor a point. -/
theorem readFraction?_fractionText_append {ds rest : List Char} (hds : ∀ c ∈ ds, c.isDigit = true)
    (hr : ∀ c ∈ rest.head?, c.isDigit = false ∧ c ≠ '.') :
    Decimal.readFraction? (fractionText ds ++ rest) = some (ds, rest) := by
  unfold fractionText
  cases ds with
  | nil =>
    unfold Decimal.readFraction?
    split
    · next cs heq =>
      have hdot := hr '.' (by rw [show rest = '.' :: cs from heq]; rfl)
      exact absurd rfl hdot.2
    · rfl
  | cons d ds =>
    simp only [List.isEmpty_cons, Bool.false_eq_true, if_false, List.cons_append]
    have hspan := spanDigits_append_of_ends hds fun c hc => (hr c hc).1
    simp only [List.cons_append] at hspan
    simp [Decimal.readFraction?, hspan]

theorem readFraction?_fractionText {ds rest : List Char} (hds : ∀ c ∈ ds, c.isDigit = true)
    (hr : Ends rest) : Decimal.readFraction? (fractionText ds ++ rest) = some (ds, rest) := by
  refine readFraction?_fractionText_append hds fun c hc => ?_
  rcases hr c hc with rfl | rfl | rfl <;> exact ⟨rfl, by decide⟩

theorem spanExponent_of_ends {rest : List Char} (hr : Ends rest) :
    spanExponent rest = ([], rest) := by
  cases rest with
  | nil => rfl
  | cons c rest =>
    have hc : (c == 'e' || c == 'E') = false := by
      rcases hr c rfl with rfl | rfl | rfl <;> rfl
    simp [spanExponent, hc]

/-- Digits, perhaps with more digits behind a point, are taken whole. -/
theorem scans_number {whole fraction rest : List Char} {y : Float} (hne : whole ≠ [])
    (hw : ∀ c ∈ whole, c.isDigit = true) (hf : ∀ c ∈ fraction, c.isDigit = true) (hr : Ends rest)
    (hy : Decimal.read? (whole ++ fractionText fraction) = some y) (glued : Bool) :
    (⟨glued, .number y, whole ++ fractionText fraction⟩ : Piece).Scans rest := by
  obtain ⟨c, cs, rfl⟩ := List.exists_cons_of_ne_nil hne
  have hc := hw c List.mem_cons_self
  have hspan := spanDigits_append_of_ends hw (not_isDigit_of_fractionText hr fraction)
  refine ⟨?_, c, cs ++ fractionText fraction, rfl, ?_, ?_, ?_⟩
  · intro hmem
    rcases List.mem_append.1 hmem with hmem | hmem
    · exact absurd (hw _ hmem) (by decide)
    · cases fraction with
      | nil => cases hmem
      | cons f fs =>
        rcases List.mem_cons.1 hmem with hdot | hmem
        · cases hdot
        · exact absurd (hf _ hmem) (by decide)
  · exact isBlank_of_class hc (by decide)
  · exact ne_of_class hc rfl
  · rw [munch, startsNumber_of_isDigit hc, if_pos rfl, munchNumber]
    have hassoc : c :: (cs ++ fractionText fraction ++ rest) =
        (c :: cs) ++ (fractionText fraction ++ rest) := by simp
    rw [hassoc, hspan]
    simp only [readFraction?_fractionText hf hr, spanExponent_of_ends hr, List.append_nil, hy]

end Lexer

end GeoScript
