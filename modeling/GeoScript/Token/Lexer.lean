import GeoScript.Decimal.Reader
import GeoScript.SyntaxError

/-!
# From characters to tokens

**One step.** `munch` takes the longest token at the front of a text. It looks at characters only
and returns the text of the token beside what is left, so that nothing is lost between the two
(`munch_append`) and every token has at least one character (`munch_ne_nil`).

**The loop.** `scan` skips blanks and comments, munches, and goes on with what is left, which is
shorter. Places are computed from the texts that were passed over.
-/

namespace GeoScript.Lexer

open Token (Kind)

/-! ## Blanks and comments -/

def isBlank (c : Char) : Bool :=
  c == ' ' || c == '\t' || c == '\r' || c == '\n'

/-- Skips blanks and comments. A comment runs from a number sign to the end of its line. -/
def skipTrivia (inComment : Bool) (p : Position) : List Char → Position × List Char
  | [] => (p, [])
  | c :: cs =>
    if inComment then skipTrivia (c != '\n') (p.after c) cs
    else if isBlank c then skipTrivia false (p.after c) cs
    else if c == '#' then skipTrivia true (p.after c) cs
    else (p, c :: cs)

/-! ## Single tokens -/

def isLetter (c : Char) : Bool :=
  ('a' ≤ c && c ≤ 'z') || ('A' ≤ c && c ≤ 'Z')

def isIdentStart (c : Char) : Bool :=
  isLetter c || c == '$'

/-- Letters, digits, the underscore, the question mark and the apostrophe. -/
def isIdentPart (c : Char) : Bool :=
  isLetter c || c.isDigit || c == '_' || c == '?' || c.toNat == 0x27

/-- A token's kind and text, and what stands behind it. -/
structure Lexeme where
  kind : Kind
  text : List Char
  rest : List Char
  deriving Repr

/-- Splits off a sign. -/
def spanSign : List Char → List Char × List Char
  | [] => ([], [])
  | c :: cs => if c == '+' || c == '-' then ([c], cs) else ([], c :: cs)

/-- Splits off an exponent. A mark with no digits behind it is left to the next token. -/
def spanExponent : List Char → List Char × List Char
  | [] => ([], [])
  | mark :: cs =>
    if mark == 'e' || mark == 'E' then
      let (sign, afterSign) := spanSign cs
      let (ds, rest) := Decimal.spanDigits afterSign
      if ds.isEmpty then ([], mark :: cs) else (mark :: (sign ++ ds), rest)
    else
      ([], mark :: cs)

/-- The point and the digits behind it, if there are any. -/
def fractionText (fraction : List Char) : List Char :=
  if fraction.isEmpty then [] else '.' :: fraction

/-- Takes a number. Digits may be followed by a point only if more digits follow. -/
def munchNumber (cs : List Char) : Except SyntaxFault Lexeme :=
  let (whole, afterWhole) := Decimal.spanDigits cs
  match Decimal.readFraction? afterWhole with
  | none => .error .missingFraction
  | some (fraction, afterFraction) =>
    let (exponent, rest) := spanExponent afterFraction
    let text := whole ++ (fractionText fraction ++ exponent)
    match Decimal.read? text with
    | some x => .ok ⟨.number x, text, rest⟩
    | none => .error (.unreadableNumber text)

/-- Takes a word that starts with `c`. -/
def munchWord (c : Char) (cs : List Char) : Lexeme :=
  let name := c :: cs.takeWhile isIdentPart
  ⟨.ofWord (String.ofList name), name, cs.dropWhile isIdentPart⟩

/-- A number starts with a digit, or with a point before one. -/
def startsNumber : List Char → Bool
  | c :: d :: _ => c.isDigit || (c == '.' && d.isDigit)
  | [c] => c.isDigit
  | [] => false

/-- Takes the longest token at the front of a text that starts with `c`. -/
def munch (c : Char) (cs : List Char) : Except SyntaxFault Lexeme :=
  if startsNumber (c :: cs) then munchNumber (c :: cs)
  else if isIdentStart c then .ok (munchWord c cs)
  else
    match Symbol.all.find? fun s => s.text.toList.isPrefixOf (c :: cs) with
    | some s =>
      .ok ⟨.symbol s, s.text.toList, (c :: cs).drop s.text.toList.length⟩
    | none => .error (.unexpectedChar c)

/-! ## Nothing is lost -/

theorem spanDigits_append (cs : List Char) :
    (Decimal.spanDigits cs).1 ++ (Decimal.spanDigits cs).2 = cs :=
  List.takeWhile_append_dropWhile

theorem readFraction?_append {cs fraction rest : List Char}
    (h : Decimal.readFraction? cs = some (fraction, rest)) :
    fractionText fraction ++ rest = cs := by
  unfold Decimal.readFraction? at h
  split at h
  · next r =>
    have hr := spanDigits_append r
    dsimp only at h
    split at h
    · simp at h
    · next hne =>
      obtain ⟨rfl, rfl⟩ := Prod.mk.inj (Option.some.inj h)
      simp only [fractionText, hne]
      simpa using hr
  · obtain ⟨rfl, rfl⟩ := Prod.mk.inj (Option.some.inj h)
    rfl

theorem spanSign_append (cs : List Char) : (spanSign cs).1 ++ (spanSign cs).2 = cs := by
  unfold spanSign
  split
  · rfl
  · split <;> rfl

theorem spanExponent_append (cs : List Char) :
    (spanExponent cs).1 ++ (spanExponent cs).2 = cs := by
  unfold spanExponent
  split
  · rfl
  · next mark r =>
    split
    · have hs := spanSign_append r
      have hd := spanDigits_append (spanSign r).2
      dsimp only
      split
      · rfl
      · simp [List.append_assoc, hd, hs]
    · rfl

theorem munchNumber_append {cs : List Char} {l : Lexeme} (h : munchNumber cs = .ok l) :
    l.text ++ l.rest = cs := by
  unfold munchNumber at h
  dsimp only at h
  split at h
  · simp at h
  · next fraction rest hf =>
    split at h
    · obtain rfl := Except.ok.inj h
      have h1 := spanDigits_append cs
      have h2 := readFraction?_append hf
      have h3 := spanExponent_append rest
      simp only [List.append_assoc]
      rw [h3, h2, h1]
    · simp at h

/-- The text of a token and what stands behind it make up the text it was taken from. -/
theorem munch_append {c : Char} {cs : List Char} {l : Lexeme} (h : munch c cs = .ok l) :
    l.text ++ l.rest = c :: cs := by
  unfold munch at h
  split at h
  · exact munchNumber_append h
  · split at h
    · obtain rfl := Except.ok.inj h
      simp [munchWord, List.takeWhile_append_dropWhile]
    · split at h
      · next s hs =>
        obtain rfl := Except.ok.inj h
        have hp : s.text.toList.isPrefixOf (c :: cs) = true := by
          simpa using List.find?_some hs
        obtain ⟨t, ht⟩ := List.isPrefixOf_iff_prefix.1 hp
        simp [← ht]
      · simp at h

/-- A number that is taken where a number starts has at least one character. -/
theorem munchNumber_ne_nil {cs : List Char} {l : Lexeme} (h : munchNumber cs = .ok l) :
    l.text ≠ [] := by
  intro hnil
  unfold munchNumber at h
  dsimp only at h
  split at h
  · simp at h
  · split at h
    · next hr =>
      obtain rfl := Except.ok.inj h
      dsimp only at hnil
      rw [hnil] at hr
      simp [Decimal.read?, Decimal.spanDigits, Decimal.readFraction?] at hr
    · simp at h

/-- Every token has at least one character. -/
theorem munch_ne_nil {c : Char} {cs : List Char} {l : Lexeme} (h : munch c cs = .ok l) :
    l.text ≠ [] := by
  unfold munch at h
  split at h
  · exact munchNumber_ne_nil h
  · split at h
    · obtain rfl := Except.ok.inj h
      simp [munchWord]
    · split at h
      · next s _ =>
        obtain rfl := Except.ok.inj h
        cases s <;> simp [Symbol.text]
      · simp at h

/-- What stands behind a token is shorter than the text it was taken from. -/
theorem munch_rest_lt {c : Char} {cs : List Char} {l : Lexeme} (h : munch c cs = .ok l) :
    l.rest.length < (c :: cs).length := by
  have hlen := congrArg List.length (munch_append h)
  have hpos := List.length_pos_iff.2 (munch_ne_nil h)
  simp only [List.length_append] at hlen
  omega

theorem skipTrivia_length_le (inComment : Bool) (p : Position) (cs : List Char) :
    (skipTrivia inComment p cs).2.length ≤ cs.length := by
  induction cs generalizing inComment p with
  | nil => simp [skipTrivia]
  | cons c cs ih =>
    unfold skipTrivia
    split
    · exact Nat.le_succ_of_le (ih _ _)
    · split
      · exact Nat.le_succ_of_le (ih _ _)
      · split
        · exact Nat.le_succ_of_le (ih _ _)
        · exact Nat.le_refl _

/-! ## The loop -/

/-- The byte length of a text. -/
def byteLength (cs : List Char) : Nat := cs.foldl (fun n c => n + c.utf8Size) 0

/-- Scans a text that starts at `p`. The tokens found so far stand in `done`, last first. -/
def scanFrom (p : Position) (cs : List Char) (done : List Token) :
    Except SyntaxError (List Token) :=
  match _hs : skipTrivia false p cs with
  | (q, []) => .ok (⟨.eof, q, 0⟩ :: done).reverse
  | (q, c :: rest) =>
    match _hm : munch c rest with
    | .error fault => .error ⟨fault, q⟩
    | .ok l => scanFrom (q.afterText l.text) l.rest (⟨l.kind, q, byteLength l.text⟩ :: done)
termination_by cs.length
decreasing_by
  have hle := skipTrivia_length_le false p cs
  have hlt := munch_rest_lt _hm
  rw [_hs] at hle
  simp only at hle
  omega

/-- The tokens of a source text, with the end mark as the last one. -/
def scan (source : String) : Except SyntaxError (List Token) :=
  scanFrom .start source.toList []

end GeoScript.Lexer
