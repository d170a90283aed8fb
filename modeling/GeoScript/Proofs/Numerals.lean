import GeoScript.Proofs.Scanning
import GeoScript.Proofs.Shortest

/-!
# Numbers in texts

**Form.** The text of a finite number is a sign, if the number has one, followed by the text of its
size; the latter is digits, perhaps with more digits behind a point (`Numeral`).

**Theorem (`read?_text`).** Reading the text of a size gives the size back. Wherever the point
stands, the digits stand for the shortest decimal; this lies in the interval of the double, and
decimals in the interval are read as the double.
-/

namespace GeoScript.Decimal

open Float.Model Float.Model.UnpackedFloat
open Lexer (fractionText)

/-! ## Reading decimals -/

variable {m d : ℕ} {e k : ℤ}

/-- **The nearest double** is the one in whose interval the decimal lies. -/
theorem nearest_eq (hd : IsDouble m e) (hround : Rounds m e (d * 10 ^ k)) :
    nearest d k = .ofModel (.pack (.finite .positive m e hd.pos)) := by
  have hpos := hround.significand_pos hd.pos
  obtain ⟨hlow, hhigh⟩ := hround.range hd
  obtain ⟨hge, hlt⟩ := pow_length_toDigits hpos
  have hsmall : ¬ k + (digits d).length < -400 := by
    intro hk
    have hupper : (d : ℚ) * 10 ^ k < 10 ^ (k + (digits d).length) := by
      rw [add_comm, zpow_add₀ (by norm_num), zpow_natCast]
      have hcast : (d : ℚ) < 10 ^ (digits d).length := by exact_mod_cast hlt
      gcongr
    have hbelow := ten_zpow_le_two_zpow (k := k + (digits d).length) (by omega)
    have hmono : (2 : ℚ) ^ (3 * (k + (digits d).length)) ≤ 2 ^ (-1075 : ℤ) :=
      zpow_le_zpow_right₀ (by norm_num) (by omega)
    exact absurd hlow (not_le.2 (hupper.trans_le (hbelow.trans hmono)))
  have hlarge : ¬ k + (digits d).length > 400 := by
    intro hk
    have hlower : (10 : ℚ) ^ (k + ((digits d).length - 1 : ℕ)) ≤ d * 10 ^ k := by
      rw [add_comm, zpow_add₀ (by norm_num), zpow_natCast]
      have hcast : (10 : ℚ) ^ ((digits d).length - 1) ≤ d := by exact_mod_cast hge
      gcongr
    have habove := two_zpow_le_ten_zpow (k := k + ((digits d).length - 1 : ℕ)) (by omega)
    have hmono : (2 : ℚ) ^ (1024 : ℤ) < 2 ^ (3 * (k + ((digits d).length - 1 : ℕ))) :=
      zpow_lt_zpow_right₀ (by norm_num) (by omega)
    exact absurd hhigh (not_le.2 (hmono.trans_le (habove.trans hlower)))
  unfold nearest
  dsimp only
  rw [if_neg (by omega), if_neg hlarge]
  cases k with
  | ofNat k => exact ofScientific_eq hd hpos false hround
  | negSucc k => exact ofScientific_eq hd hpos true hround

/-- Digits, perhaps with more digits behind a point. -/
structure Numeral where
  whole : List Char
  fraction : List Char
  nonempty : whole ≠ []
  isDigit_whole : ∀ c ∈ whole, c.isDigit = true
  isDigit_fraction : ∀ c ∈ fraction, c.isDigit = true

namespace Numeral

def text (n : Numeral) : List Char := n.whole ++ fractionText n.fraction

/-- The number that all digits together stand for. -/
def significand (n : Numeral) : ℕ := ofDigits (n.whole ++ n.fraction)

/-- What stands behind the digits is read as the exponent. -/
theorem read?_text_append (n : Numeral) {rest : List Char}
    (hrest : ∀ c ∈ rest.head?, c.isDigit = false ∧ c ≠ '.') :
    read? (n.text ++ rest) =
      (readExponent? rest).map fun e => nearest n.significand (e - n.fraction.length) := by
  have hspan := Lexer.spanDigits_append_of_ends n.isDigit_whole
    (Lexer.not_isDigit_fractionText (fun c hc => (hrest c hc).1) n.fraction)
  have hfraction := Lexer.readFraction?_fractionText_append n.isDigit_fraction hrest
  have hne : n.whole.isEmpty = false := by simpa using n.nonempty
  rw [text, read?, List.append_assoc, hspan]
  simp only [hfraction, hne]
  rfl

theorem read?_text (n : Numeral) : read? n.text = some (nearest n.significand (-n.fraction.length)) := by
  have hread : read? (n.text ++ []) = _ := n.read?_text_append nofun
  rw [List.append_nil] at hread
  rw [hread, readExponent?, Option.map_some, zero_sub]

end Numeral

theorem isDigit_digits (n : ℕ) : ∀ c ∈ digits n, c.isDigit = true :=
  fun _ hc => Nat.isDigit_of_mem_toDigits (by norm_num) (by norm_num) hc

theorem isDigit_zeros (n : ℕ) : ∀ c ∈ zeros n, c.isDigit = true := by
  intro c hc
  rw [(List.mem_replicate.1 hc).2]
  rfl

theorem ofDigits_digits (n : ℕ) : ofDigits (digits n) = n := Nat.ofDigitChars_ten_toDigits

theorem ofDigits_digits_zeros (n j : ℕ) : ofDigits (digits n ++ zeros j) = n * 10 ^ j := by
  have h := Nat.ofDigitChars_append (b := 10) (l := digits n) (m := zeros j) 0
  rw [show Nat.ofDigitChars 10 (digits n) 0 = n from ofDigits_digits n, zeros,
    Nat.ofDigitChars_replicate_zero, mul_comm] at h
  exact h

theorem ofDigits_zeros_digits (n j : ℕ) : ofDigits (zeros j ++ digits n) = n := by
  have h := Nat.ofDigitChars_append (b := 10) (l := zeros j) (m := digits n) 0
  rw [zeros, Nat.ofDigitChars_replicate_zero, mul_zero] at h
  exact h.trans (ofDigits_digits n)

/-- **A positional text** is digits with more digits behind a point, and all together they stand for
the decimal. -/
theorem exists_numeral (s : Scientific) (pointZero : Bool) :
    ∃ n : Numeral, s.positional pointZero = n.text ∧
    (n.significand : ℚ) * 10 ^ (-(n.fraction.length : ℤ)) = s.significand * 10 ^ s.exponent := by
  have hne : digits s.significand ≠ [] := Nat.toDigits_ne_nil
  rcases s with ⟨d, k⟩
  cases k with
  | ofNat j =>
    have hwhole : ∀ c ∈ digits d ++ zeros j, c.isDigit = true := by
      intro c hc
      rcases List.mem_append.1 hc with hc | hc
      · exact isDigit_digits d c hc
      · exact isDigit_zeros j c hc
    cases pointZero with
    | false =>
      refine ⟨⟨digits d ++ zeros j, [], by simp [hne], hwhole, nofun⟩, ?_, ?_⟩
      · simp [Scientific.positional, Numeral.text, fractionText]
      · simp [Numeral.significand, ofDigits_digits_zeros]
    | true =>
      refine ⟨⟨digits d ++ zeros j, ['0'], by simp [hne], hwhole, by simp⟩, ?_, ?_⟩
      · simp [Scientific.positional, Numeral.text, fractionText]
      · have hzeros : zeros j ++ ['0'] = zeros (j + 1) := List.replicate_succ'.symm
        simp only [Numeral.significand, List.append_assoc, hzeros, ofDigits_digits_zeros]
        push_cast
        rw [pow_succ, ← mul_assoc]
        simp
  | negSucc j =>
    by_cases hplaces : j + 1 < (digits d).length
    · obtain ⟨i, hi⟩ : ∃ i, (digits d).length = i + (j + 1) := ⟨(digits d).length - (j + 1), by omega⟩
      have hlen : ((digits d).drop i).length = j + 1 := by
        rw [List.length_drop]
        omega
      refine ⟨⟨(digits d).take i, (digits d).drop i, ?_, ?_, ?_⟩, ?_, ?_⟩
      · have hpos : 0 < i := by omega
        simp [List.take_eq_nil_iff, hne, Nat.ne_of_gt hpos]
      · exact fun c hc => isDigit_digits d c (List.mem_of_mem_take hc)
      · exact fun c hc => isDigit_digits d c (List.mem_of_mem_drop hc)
      · have hempty : ((digits d).drop i).isEmpty = false := by
          rw [List.isEmpty_eq_false_iff_exists_mem]
          exact List.exists_mem_of_length_pos (by omega)
        simp only [Scientific.positional, hplaces, if_true, Numeral.text, fractionText, hempty,
          show (digits d).length - (j + 1) = i by omega]
        rfl
      · simp only [Numeral.significand, List.take_append_drop, ofDigits_digits, hlen]
        rfl
    · have hlen : (zeros (j + 1 - (digits d).length) ++ digits d).length = j + 1 := by
        rw [List.length_append, zeros, List.length_replicate]
        omega
      refine ⟨⟨['0'], zeros (j + 1 - (digits d).length) ++ digits d, by simp, by simp, ?_⟩, ?_, ?_⟩
      · intro c hc
        rcases List.mem_append.1 hc with hc | hc
        · exact isDigit_zeros _ c hc
        · exact isDigit_digits d c hc
      · simp [Scientific.positional, hplaces, Numeral.text, fractionText, hne]
      · have hzero : ofDigits (['0'] ++ (zeros (j + 1 - (digits d).length) ++ digits d)) = d :=
          ofDigits_zeros_digits d (j + 1 - (digits d).length + 1)
        simp only [Numeral.significand, hzero, hlen]
        rfl

/-! ## Texts of numbers -/

/-- The size of a finite double has its mantissa and its exponent, and no sign. -/
theorem magnitude_abs {x : Float} (hx : x.isFinite = true) :
    ∃ n k, Magnitude.ofFloat x = .finite ⟨isSigned x, n, k⟩ ∧
      Magnitude.ofFloat x.abs = .finite ⟨false, n, k⟩ ∧
      ((n = 0 ∧ x.abs = 0) ∨
        ∃ h : IsDouble n k, x.abs = .ofModel (.pack (.finite .positive n k h.pos))) := by
  have habs : x.abs = .ofModel (.pack x.toModel.unpack.abs) := rfl
  rcases finite_cases hx with ⟨s, hs⟩ | ⟨s, n, k, hd, hs⟩
  · have hzero : x.abs = .ofModel (.pack (.zero .positive)) := by
      rw [habs, hs]
      rfl
    refine ⟨0, leastExponent, ?_, ?_, .inl ⟨rfl, ?_⟩⟩
    · rw [isSigned, magnitude_eq, hs]
      rfl
    · rw [hzero]
      decide +kernel
    · rw [hzero]
      decide +kernel
  · have hfinite : x.abs = .ofModel (.pack (.finite .positive n k hd.pos)) := by
      rw [habs, hs]
      rfl
    refine ⟨n, k, ?_, ?_, .inr ⟨hd, hfinite⟩⟩
    · rw [isSigned, magnitude_eq, hs]
      rfl
    · rw [hfinite, magnitude_eq]
      show magnitudeOf (Float.Model.pack (.finite .positive n k hd.pos)).unpack = _
      rw [unpack_pack_finite .positive hd]
      rfl

/-- The text of a number is its sign, if it has one, and the text of its size. -/
theorem text_eq {x : Float} (hx : x.isFinite = true) :
    (text x).toList = (if isSigned x then ['-'] else []) ++ (text x.abs).toList := by
  obtain ⟨n, k, hmag, habs, -⟩ := magnitude_abs hx
  simp [text, Format.text, hmag, habs, Format.magnitude]

/-- **Reading the text of a size gives the size back.** -/
theorem read?_text {x : Float} (hx : x.isFinite = true) :
    ∃ n : Numeral, (text x.abs).toList = n.text ∧ read? n.text = some x.abs := by
  obtain ⟨m, k, -, habs, hcases⟩ := magnitude_abs hx
  have htext : (text x.abs).toList = Format.plain.unsigned m k := by
    simp [text, Format.text, habs, Format.magnitude]
  rw [htext, Format.unsigned]
  rcases hcases with ⟨rfl, hzero⟩ | ⟨hd, hfinite⟩
  · rw [hzero]
    exact ⟨⟨['0'], [], by simp, by simp, by simp⟩, rfl, by decide +kernel⟩
  · have hround := rounds_shortest hd Format.plain.tie
    obtain ⟨n, hn, hvalue⟩ := exists_numeral (shortest Format.plain.tie m k) false
    refine ⟨n, ?_, ?_⟩
    · rw [if_neg (Nat.ne_of_gt hd.pos)]
      exact hn
    · rw [← hvalue] at hround
      rw [n.read?_text, nearest_eq hd hround, hfinite]

end GeoScript.Decimal
