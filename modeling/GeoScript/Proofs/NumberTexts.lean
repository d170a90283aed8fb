import GeoScript.Proofs.Numerals

/-!
# Number texts tell numbers apart

**Form.** In every format the text of a positive double is digits, perhaps with more digits behind a
point, and perhaps an exponent behind those (`Written`). The decimal it stands for is the shortest
one, however it is laid out.

**Theorem (`Format.text_injective`).** In every format two finite doubles with the same text are the
same, the two zeros included: a text that begins with a sign is that of a signed number, and what is
behind the sign reads back as the size of the number.
-/

namespace GeoScript.Decimal

open Lexer (fractionText)

/-! ## Characters -/

/-- The characters of number texts. -/
def isNumberChar (c : Char) : Bool := c.isDigit || ['.', '-', '+', 'e'].contains c

theorem isNumberChar_of_isDigit {c : Char} (hc : c.isDigit = true) : isNumberChar c = true := by
  rw [isNumberChar, hc, Bool.true_or]

theorem isNumberChar_digits (n : ℕ) : ∀ c ∈ digits n, isNumberChar c = true :=
  fun c hc => isNumberChar_of_isDigit (isDigit_digits n c hc)

theorem Numeral.isNumberChar_text (n : Numeral) : ∀ c ∈ n.text, isNumberChar c = true := by
  intro c hc
  rcases List.mem_append.1 hc with hc | hc
  · exact isNumberChar_of_isDigit (n.isDigit_whole c hc)
  · unfold fractionText at hc
    split at hc
    · cases hc
    · rcases List.mem_cons.1 hc with rfl | hc
      · rfl
      · exact isNumberChar_of_isDigit (n.isDigit_fraction c hc)

/-! ## Exponents -/

/-- The exponent part of a text. -/
def exponentText (plusSign : Bool) (e : ℤ) : List Char :=
  'e' :: match e with
    | .ofNat e => (if plusSign then ['+'] else []) ++ digits e
    | .negSucc e => '-' :: digits (e + 1)

theorem spanDigits_digits (n : ℕ) : spanDigits (digits n) = (digits n, []) := by
  have hspan : spanDigits (digits n ++ []) = _ :=
    Lexer.spanDigits_append_of_ends (isDigit_digits n) nofun
  rwa [List.append_nil] at hspan

theorem digits_ne_nil (n : ℕ) : digits n ≠ [] := Nat.toDigits_ne_nil

theorem isEmpty_digits (n : ℕ) : (digits n).isEmpty = false :=
  List.isEmpty_eq_false_iff.2 (digits_ne_nil n)

/-- An exponent without a sign is not mistaken for one with a sign. -/
theorem readExponent?_digits (n : ℕ) : readExponent? ('e' :: digits n) = some (n : ℤ) := by
  obtain ⟨c, cs, hdigits⟩ := List.exists_cons_of_ne_nil (digits_ne_nil n)
  have hc : c.isDigit = true := isDigit_digits n c (hdigits ▸ List.mem_cons_self)
  have hspan := spanDigits_digits n
  have hvalue := ofDigits_digits n
  rw [hdigits] at hspan hvalue ⊢
  simp [readExponent?, Lexer.ne_of_class hc (d := '-') rfl, Lexer.ne_of_class hc (d := '+') rfl,
    hspan, hvalue]

theorem readExponent?_exponentText (plusSign : Bool) (e : ℤ) :
    readExponent? (exponentText plusSign e) = some e := by
  cases e with
  | negSucc e =>
    simp only [exponentText, readExponent?, spanDigits_digits, isEmpty_digits, ofDigits_digits]
    rfl
  | ofNat e =>
    cases plusSign with
    | true =>
      simp only [exponentText, readExponent?, if_true, List.cons_append, List.nil_append,
        spanDigits_digits, isEmpty_digits, ofDigits_digits]
      rfl
    | false => exact readExponent?_digits e

theorem isNumberChar_exponentText (plusSign : Bool) (e : ℤ) :
    ∀ c ∈ exponentText plusSign e, isNumberChar c = true := by
  intro c hc
  rcases List.mem_cons.1 hc with rfl | hc
  · rfl
  · cases e with
    | negSucc e =>
      rcases List.mem_cons.1 hc with rfl | hc
      · rfl
      · exact isNumberChar_digits _ c hc
    | ofNat e =>
      rcases List.mem_append.1 hc with hc | hc
      · cases plusSign with
        | true =>
          obtain rfl := List.mem_singleton.1 hc
          rfl
        | false => cases hc
      · exact isNumberChar_digits _ c hc

/-! ## Texts of sizes -/

/-- The text is a numeral, with an exponent or without one, and stands for the decimal. -/
structure Written (text : List Char) (v : ℚ) : Prop where
  parts : ∃ (n : Numeral) (tail : List Char) (e : ℤ), text = n.text ++ tail ∧
    (∀ c ∈ tail.head?, c = 'e') ∧ (∀ c ∈ tail, isNumberChar c = true) ∧
    readExponent? tail = some e ∧ (n.significand : ℚ) * 10 ^ (e - n.fraction.length) = v

namespace Written

variable {text : List Char} {v : ℚ}

theorem isNumberChar (h : Written text v) : ∀ c ∈ text, isNumberChar c = true := by
  obtain ⟨n, tail, e, rfl, -, htail, -, -⟩ := h.parts
  intro c hc
  rcases List.mem_append.1 hc with hc | hc
  · exact n.isNumberChar_text c hc
  · exact htail c hc

theorem exists_digit (h : Written text v) : ∃ c cs, text = c :: cs ∧ c.isDigit = true := by
  obtain ⟨n, tail, e, rfl, -⟩ := h.parts
  obtain ⟨c, cs, hwhole⟩ := List.exists_cons_of_ne_nil n.nonempty
  refine ⟨c, cs ++ fractionText n.fraction ++ tail, ?_, n.isDigit_whole c ?_⟩
  · rw [Numeral.text, hwhole, List.cons_append, List.cons_append]
  · rw [hwhole]
    exact List.mem_cons_self

theorem read? {m : ℕ} {k : ℤ} (h : Written text v) (hd : IsDouble m k) (hround : Rounds m k v) :
    Decimal.read? text = some (.ofModel (.pack (.finite .positive m k hd.pos))) := by
  obtain ⟨n, tail, e, rfl, hhead, -, hread, rfl⟩ := h.parts
  have hrest : ∀ c ∈ tail.head?, c.isDigit = false ∧ c ≠ '.' := by
    intro c hc
    rw [hhead c hc]
    decide
  rw [n.read?_text_append hrest, hread, Option.map_some, nearest_eq hd hround]

end Written

theorem written_positional (s : Scientific) (pointZero : Bool) :
    Written (s.positional pointZero) (s.significand * 10 ^ s.exponent) := by
  obtain ⟨n, htext, hvalue⟩ := exists_numeral s pointZero
  refine ⟨n, [], 0, ?_, nofun, nofun, rfl, ?_⟩
  · rw [htext, List.append_nil]
  · rw [zero_sub, hvalue]

theorem written_exponential (s : Scientific) (plusSign : Bool) :
    Written (s.exponential plusSign) (s.significand * 10 ^ s.exponent) := by
  obtain ⟨c, cs, hdigits⟩ := List.exists_cons_of_ne_nil (digits_ne_nil s.significand)
  have hmem := isDigit_digits s.significand
  rw [hdigits] at hmem
  refine ⟨⟨[c], cs, nofun, fun a ha => hmem a ?_, fun a ha => hmem a (List.mem_cons_of_mem _ ha)⟩,
    exponentText plusSign s.leading, s.leading, ?_, ?_, isNumberChar_exponentText _ _,
    readExponent?_exponentText _ _, ?_⟩
  · rw [List.mem_singleton.1 ha]
    exact List.mem_cons_self
  · rw [Scientific.exponential, hdigits, Numeral.text, fractionText]
    cases cs <;> rfl
  · intro a ha
    exact (Option.some.inj ha).symm
  · have hexponent : s.leading - cs.length = s.exponent := by
      rw [Scientific.leading, hdigits, List.length_cons]
      push_cast
      ring
    have hsignificand : ofDigits ([c] ++ cs) = s.significand := by
      rw [List.singleton_append, ← hdigits, ofDigits_digits]
    simp only [Numeral.significand, hexponent, hsignificand]

/-- The text of a positive double, in any format, stands for a decimal in its interval. -/
theorem Format.written_unsigned (f : Format) {m : ℕ} {k : ℤ} (hd : IsDouble m k) :
    ∃ v, Written (f.unsigned m k) v ∧ Rounds m k v := by
  refine ⟨_, ?_, rounds_shortest hd f.tie⟩
  rw [Format.unsigned, if_neg (Nat.ne_of_gt hd.pos)]
  dsimp only
  split
  · exact written_positional _ _
  · exact written_exponential _ _

/-! ## Texts of numbers -/

/-- **The text of a number** is its sign, if it has one, and a text that reads back as its size. -/
theorem Format.text_finite (f : Format) {x : Float} (hx : x.isFinite = true) :
    ∃ size, (f.text x).toList = (if isSigned x then ['-'] else []) ++ size ∧
      Decimal.read? size = some x.abs ∧ (∀ c ∈ size, isNumberChar c = true) ∧
      ∃ c cs, size = c :: cs ∧ c.isDigit = true := by
  obtain ⟨m, k, hmag, -, hcases⟩ := magnitude_abs hx
  have htext : (f.text x).toList = (if isSigned x then ['-'] else []) ++ f.unsigned m k := by
    rw [Format.text, hmag, String.toList_ofList]
    rfl
  refine ⟨f.unsigned m k, htext, ?_⟩
  rcases hcases with ⟨rfl, hzero⟩ | ⟨hd, hfinite⟩
  · rw [hzero, Format.unsigned, if_pos rfl]
    cases f.pointZero with
    | false => exact ⟨by decide +kernel, List.all_eq_true.1 rfl, '0', _, rfl, rfl⟩
    | true => exact ⟨by decide +kernel, List.all_eq_true.1 rfl, '0', _, rfl, rfl⟩
  · obtain ⟨v, hwritten, hround⟩ := f.written_unsigned hd
    exact ⟨hfinite ▸ hwritten.read? hd hround, hwritten.isNumberChar, hwritten.exists_digit⟩

theorem Format.isNumberChar_text (f : Format) {x : Float} (hx : x.isFinite = true) :
    ∀ c ∈ (f.text x).toList, isNumberChar c = true := by
  obtain ⟨size, htext, -, hchars, -⟩ := f.text_finite hx
  intro c hc
  rw [htext] at hc
  rcases List.mem_append.1 hc with hc | hc
  · split at hc
    · obtain rfl := List.mem_singleton.1 hc
      rfl
    · cases hc
  · exact hchars c hc

/-- **Numbers with the same text are the same.** -/
theorem Format.text_injective (f : Format) {x y : Float} (hx : x.isFinite = true)
    (hy : y.isFinite = true) (h : (f.text x).toList = (f.text y).toList) : x = y := by
  obtain ⟨size, htext, hread, -, c, cs, rfl, hc⟩ := f.text_finite hx
  obtain ⟨size', htext', hread', -, c', cs', rfl, hc'⟩ := f.text_finite hy
  rw [htext, htext'] at h
  have hminus : c ≠ '-' := Lexer.ne_of_class hc rfl
  have hminus' : c' ≠ '-' := Lexer.ne_of_class hc' rfl
  -- The sign is told by the first character, since a size begins with a digit.
  have hparts : isSigned x = isSigned y ∧ c :: cs = c' :: cs' := by
    revert h
    cases isSigned x <;> cases isSigned y <;> intro h
    · exact ⟨rfl, h⟩
    · exact absurd (List.cons.inj h).1 hminus
    · exact absurd (List.cons.inj h).1.symm hminus'
    · exact ⟨rfl, (List.cons.inj h).2⟩
  have habs : x.abs = y.abs := by
    rw [hparts.2, hread'] at hread
    exact (Option.some.inj hread).symm
  rw [← signed_abs hx, ← signed_abs hy, hparts.1, habs]

end GeoScript.Decimal
