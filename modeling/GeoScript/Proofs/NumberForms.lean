import GeoScript.Proofs.Lexemes

/-!
# The form of numbers

**Form.** A number is digits, digits with more digits behind a point, or a point with digits behind it,
and each of these may have an exponent: a mark, perhaps a sign, and digits (`NumberForm`).

**Reading.** Every text of the form stands for a number (`exists_read?`).

**Taking.** Where a number starts, the longest text of the form is taken (`munchNumber_longest`); only
where digits go on with a point and without a digit behind it nothing is taken (`Unfinished`).

Texts of the form are compared part by part. The digits in front can only be longer in the text that
was taken; if the other text goes on with a point or with a mark, its digits end there, so that they
are the same, and so on for the digits behind the point and for the exponent.
-/

namespace GeoScript.Lexer

open Token (Kind)

/-! ## Parts -/

/-- Digits, and at least one. -/
def Digits (ds : List Char) : Prop := ds ≠ [] ∧ ∀ d ∈ ds, d.isDigit = true

/-- A number without an exponent. -/
inductive Significand : List Char → Prop
  | whole {ds : List Char} : Digits ds → Significand ds
  | fraction {ds fs : List Char} : Digits ds → Digits fs → Significand (ds ++ '.' :: fs)
  | point {fs : List Char} : Digits fs → Significand ('.' :: fs)

/-- A mark, perhaps a sign, and digits. -/
inductive Exponent : List Char → Prop
  | mk {mark : Char} {sign ds : List Char} : mark = 'e' ∨ mark = 'E' →
    sign = [] ∨ sign = ['+'] ∨ sign = ['-'] → Digits ds → Exponent (mark :: (sign ++ ds))

/-- The form of a number. -/
inductive NumberForm : List Char → Prop
  | plain {s : List Char} : Significand s → NumberForm s
  | scaled {s e : List Char} : Significand s → Exponent e → NumberForm (s ++ e)

/-- The text in front of `rest` is a number, and no longer text from the same place on is one. -/
structure LongestNumber (text rest : List Char) : Prop where
  form : NumberForm text
  longest : ∀ t, NumberForm t → t <+: text ++ rest → t.length ≤ text.length

/-- Digits that go on with a point and without a digit behind it. -/
def Unfinished (cs : List Char) : Prop :=
  ∃ ds rest, Digits ds ∧ cs = ds ++ '.' :: rest ∧ ∀ d ∈ rest.head?, d.isDigit = false

variable {cs ds fs e u rest : List Char}

/-- A text of the form in parts: the digits in front of the point, those behind it, and the exponent.
Each of them may be missing, but not the digits altogether. -/
structure Parts (ds fs e : List Char) : Prop where
  whole : ∀ d ∈ ds, d.isDigit = true
  fraction : ∀ d ∈ fs, d.isDigit = true
  nonempty : ds ≠ [] ∨ fs ≠ []
  exponent : e = [] ∨ Exponent e

theorem Digits.fractionText_eq (h : Digits fs) : fractionText fs = '.' :: fs := by
  simp [fractionText, h.1]

theorem Significand.exists_parts {s : List Char} (h : Significand s) :
    ∃ ds fs, s = ds ++ fractionText fs ∧ ∀ e, e = [] ∨ Exponent e → Parts ds fs e := by
  cases h with
  | whole hds => exact ⟨s, [], by simp [fractionText], fun e he => ⟨hds.2, nofun, .inl hds.1, he⟩⟩
  | @fraction ds fs hds hfs =>
    exact ⟨ds, fs, by rw [hfs.fractionText_eq], fun e he => ⟨hds.2, hfs.2, .inl hds.1, he⟩⟩
  | @point fs hfs =>
    exact ⟨[], fs, by rw [hfs.fractionText_eq]; rfl, fun e he => ⟨nofun, hfs.2, .inr hfs.1, he⟩⟩

theorem NumberForm.exists_parts {t : List Char} (h : NumberForm t) :
    ∃ ds fs e, t = ds ++ (fractionText fs ++ e) ∧ Parts ds fs e := by
  cases h with
  | plain hs =>
    obtain ⟨ds, fs, rfl, hparts⟩ := hs.exists_parts
    exact ⟨ds, fs, [], by simp, hparts [] (.inl rfl)⟩
  | @scaled s e hs he =>
    obtain ⟨ds, fs, rfl, hparts⟩ := hs.exists_parts
    exact ⟨ds, fs, e, by simp, hparts e (.inr he)⟩

theorem Parts.numberForm (h : Parts ds fs e) : NumberForm (ds ++ (fractionText fs ++ e)) := by
  have hsignificand : Significand (ds ++ fractionText fs) := by
    by_cases hfs : fs = []
    · have hds : ds ≠ [] := h.nonempty.resolve_right fun hne => hne hfs
      simpa [hfs, fractionText] using Significand.whole ⟨hds, h.whole⟩
    · have hdigits : Digits fs := ⟨hfs, h.fraction⟩
      rw [hdigits.fractionText_eq]
      by_cases hds : ds = []
      · simpa [hds] using Significand.point hdigits
      · exact .fraction ⟨hds, h.whole⟩ hdigits
  rw [← List.append_assoc]
  cases h.exponent with
  | inl hnone => simpa [hnone] using NumberForm.plain hsignificand
  | inr he => exact .scaled hsignificand he

/-- An exponent starts with neither a digit nor a point. -/
theorem Exponent.head (h : Exponent e) (u : List Char) :
    ∀ c ∈ (e ++ u).head?, c.isDigit = false ∧ c ≠ '.' := by
  cases h with
  | mk hmark _ _ =>
    intro c hc
    obtain rfl := Option.some.inj hc
    cases hmark with
    | inl he => exact he ▸ ⟨rfl, by decide⟩
    | inr he => exact he ▸ ⟨rfl, by decide⟩

/-! ## Reading -/

theorem Exponent.exists_read? (h : Exponent e) : ∃ k, Decimal.readExponent? e = some k := by
  cases h with
  | @mk mark sign ds hmark hsign hds =>
    have hspan := spanDigits_alone hds.2
    have hmark' : (mark == 'e' || mark == 'E') = true := by simpa using hmark
    have hne : ds.isEmpty = false := by simpa using hds.1
    rcases hsign with rfl | rfl | rfl
    · obtain ⟨d, ds', rfl⟩ := List.exists_cons_of_ne_nil hds.1
      have hd := hds.2 d List.mem_cons_self
      have hplus : d ≠ '+' := ne_of_class hd rfl
      have hminus : d ≠ '-' := ne_of_class hd rfl
      simp [Decimal.readExponent?, hmark', hplus, hminus, hspan]
    · simp [Decimal.readExponent?, hmark', hspan, hne]
    · simp [Decimal.readExponent?, hmark', hspan, hne]

/-- **Every text of the form stands for a number.** -/
theorem NumberForm.exists_read? {t : List Char} (h : NumberForm t) :
    ∃ x, Decimal.read? t = some x := by
  obtain ⟨ds, fs, e, rfl, hparts⟩ := h.exists_parts
  have hhead : ∀ c ∈ e.head?, c.isDigit = false ∧ c ≠ '.' := by
    cases hparts.exponent with
    | inl hnone => simp [hnone]
    | inr he => simpa using he.head []
  obtain ⟨k, hk⟩ : ∃ k, Decimal.readExponent? e = some k := by
    cases hparts.exponent with
    | inl hnone => exact ⟨0, by rw [hnone]; rfl⟩
    | inr he => exact he.exists_read?
  have hspan := spanDigits_append_of_ends hparts.whole
    (not_isDigit_fractionText (fun c hc => (hhead c hc).1) fs)
  have hsome : (ds.isEmpty && fs.isEmpty) = false := by
    simpa [Decidable.imp_iff_not_or] using hparts.nonempty
  unfold Decimal.read?
  rw [hspan]
  simp only [readFraction?_fractionText_append hparts.fraction hhead, hsome, hk]
  exact ⟨_, rfl⟩

/-! ## Taking -/

theorem length_le_spanDigits (hds : ∀ d ∈ ds, d.isDigit = true) (u : List Char) :
    ds.length ≤ (Decimal.spanDigits (ds ++ u)).1.length := by
  rw [Decimal.spanDigits, List.takeWhile_append_of_pos hds, List.length_append]
  omega

theorem Exponent.length_le_spanExponent (h : Exponent e) (u : List Char) :
    e.length ≤ (spanExponent (e ++ u)).1.length := by
  cases h with
  | @mk mark sign ds hmark hsign hds =>
    have hmark' : (mark == 'e' || mark == 'E') = true := by simpa using hmark
    have hspan : spanSign (sign ++ (ds ++ u)) = (sign, ds ++ u) := by
      rcases hsign with rfl | rfl | rfl
      · obtain ⟨d, ds', rfl⟩ := List.exists_cons_of_ne_nil hds.1
        have hd := hds.2 d List.mem_cons_self
        simp [spanSign, ne_of_class hd (d := '+') rfl, ne_of_class hd (d := '-') rfl]
      · rfl
      · rfl
    have hle := length_le_spanDigits hds.2 u
    have hpos := List.length_pos_iff.2 hds.1
    have hne : (Decimal.spanDigits (ds ++ u)).1.isEmpty = false := by
      rw [List.isEmpty_eq_false_iff]
      exact List.length_pos_iff.1 (Nat.lt_of_lt_of_le hpos hle)
    rw [List.cons_append, List.append_assoc, spanExponent, if_pos hmark', hspan]
    simp only [hne, Bool.false_eq_true, if_false, List.length_cons, List.length_append]
    omega

theorem exponent_spanExponent (cs : List Char) :
    (spanExponent cs).1 = [] ∨ Exponent (spanExponent cs).1 := by
  cases cs with
  | nil => exact .inl rfl
  | cons mark cs =>
    by_cases hmark : (mark == 'e' || mark == 'E') = true
    · by_cases hnone : (Decimal.spanDigits (spanSign cs).2).1.isEmpty = true
      · exact .inl (by simp [spanExponent, hmark, hnone])
      · have hsign : (spanSign cs).1 = [] ∨ (spanSign cs).1 = ['+'] ∨ (spanSign cs).1 = ['-'] := by
          unfold spanSign
          split
          · exact .inl rfl
          · split
            · next c _ hc => simpa using hc
            · exact .inl rfl
        have hdigits : Digits (Decimal.spanDigits (spanSign cs).2).1 :=
          ⟨by simpa using hnone, fun _ => isDigit_of_mem_spanDigits⟩
        have hspan : (spanExponent (mark :: cs)).1 =
            mark :: ((spanSign cs).1 ++ (Decimal.spanDigits (spanSign cs).2).1) := by
          simp [spanExponent, hmark, hnone]
        rw [hspan]
        exact .inr (.mk (by simpa using hmark) hsign hdigits)
    · exact .inl (by simp [spanExponent, hmark])

theorem readFraction?_point (cs : List Char) : Decimal.readFraction? ('.' :: cs) =
    if (Decimal.spanDigits cs).1.isEmpty then none else some (Decimal.spanDigits cs) := rfl

section Longest

variable {fraction after : List Char}

/-- A number without a point is no longer than what is taken. -/
theorem Parts.length_le_of_whole (h : Parts ds [] e)
    (hfraction : Decimal.readFraction? (Decimal.spanDigits cs).2 = some (fraction, after))
    (hcs : cs = ds ++ (e ++ u)) :
    ds.length + e.length ≤ (Decimal.spanDigits cs).1.length +
      ((fractionText fraction).length + (spanExponent after).1.length) := by
  cases h.exponent with
  | inl hnone =>
    have hle := length_le_spanDigits h.whole (e ++ u)
    rw [← hcs] at hle
    rw [hnone, List.length_nil]
    omega
  | inr he =>
    -- The mark ends the digits, and it is no point.
    have hspan := spanDigits_append_of_ends h.whole fun c hc => (he.head u c hc).1
    have hread := readFraction?_fractionText_append (List.forall_mem_nil _) (he.head u)
    rw [← hcs] at hspan
    rw [hspan] at hfraction ⊢
    have hafter : e ++ u = after :=
      congrArg Prod.snd (Option.some.inj (hread.symm.trans hfraction))
    have hle := he.length_le_spanExponent u
    rw [hafter] at hle
    dsimp only
    omega

/-- Neither is a number with a point. -/
theorem Parts.length_le_of_fraction (h : Parts ds fs e) (hfs : fs ≠ [])
    (hfraction : Decimal.readFraction? (Decimal.spanDigits cs).2 = some (fraction, after))
    (hcs : cs = ds ++ '.' :: (fs ++ (e ++ u))) :
    ds.length + (fs.length + 1 + e.length) ≤ (Decimal.spanDigits cs).1.length +
      ((fractionText fraction).length + (spanExponent after).1.length) := by
  -- The point ends the digits in front of it.
  have hends : ∀ c ∈ ('.' :: (fs ++ (e ++ u))).head?, c.isDigit = false := by
    intro c hc
    rw [← Option.some.inj hc]
    rfl
  have hspan := spanDigits_append_of_ends h.whole hends
  have hle := length_le_spanDigits h.fraction (e ++ u)
  have hne : (Decimal.spanDigits (fs ++ (e ++ u))).1 ≠ [] :=
    List.length_pos_iff.1 (Nat.lt_of_lt_of_le (List.length_pos_iff.2 hfs) hle)
  rw [← hcs] at hspan
  rw [hspan, readFraction?_point, if_neg (by simpa using hne)] at hfraction
  have hdigits : (Decimal.spanDigits (fs ++ (e ++ u))).1 = fraction :=
    congrArg Prod.fst (Option.some.inj hfraction)
  have hafter : (Decimal.spanDigits (fs ++ (e ++ u))).2 = after :=
    congrArg Prod.snd (Option.some.inj hfraction)
  rw [hdigits] at hle hne
  have hlength : (fractionText fraction).length = fraction.length + 1 := by
    simp [fractionText, hne]
  rw [hspan, hlength]
  cases h.exponent with
  | inl hnone =>
    rw [hnone, List.length_nil]
    dsimp only
    omega
  | inr he =>
    have hspan' := spanDigits_append_of_ends h.fraction fun c hc => (he.head u c hc).1
    rw [hspan'] at hafter
    have hle' := he.length_le_spanExponent u
    rw [show e ++ u = after from hafter] at hle'
    dsimp only
    omega

/-- Part by part, what is taken is at least as long as any number at the front of the text. -/
theorem Parts.length_le (h : Parts ds fs e)
    (hfraction : Decimal.readFraction? (Decimal.spanDigits cs).2 = some (fraction, after))
    (hcs : cs = ds ++ (fractionText fs ++ (e ++ u))) :
    (ds ++ (fractionText fs ++ e)).length ≤
      ((Decimal.spanDigits cs).1 ++ (fractionText fraction ++ (spanExponent after).1)).length := by
  simp only [List.length_append]
  by_cases hfs : fs = []
  · subst hfs
    have hle := h.length_le_of_whole hfraction hcs
    rwa [← Nat.zero_add e.length] at hle
  · have hpoint : fractionText fs = '.' :: fs := Digits.fractionText_eq ⟨hfs, h.fraction⟩
    rw [hpoint] at hcs ⊢
    exact h.length_le_of_fraction hfs hfraction hcs

end Longest

/-- Where a number starts without a digit there is a point with a digit behind it. -/
theorem startsNumber_cases (hstart : startsNumber cs = true) :
    (Decimal.spanDigits cs).1 ≠ [] ∨ ∃ d rest, cs = '.' :: d :: rest ∧ d.isDigit = true := by
  have hdigit : ∀ {c : Char} {rest : List Char}, c.isDigit = true →
      (Decimal.spanDigits (c :: rest)).1 ≠ [] := by
    intro c rest hc
    simp [Decimal.spanDigits, hc]
  cases cs with
  | nil => cases hstart
  | cons c cs =>
    cases cs with
    | nil => exact .inl (hdigit hstart)
    | cons d rest =>
      simp only [startsNumber, Bool.or_eq_true, Bool.and_eq_true, beq_iff_eq] at hstart
      cases hstart with
      | inl hc => exact .inl (hdigit hc)
      | inr hpoint => exact .inr ⟨d, rest, by rw [hpoint.1], hpoint.2⟩

/-- What is left begins with a character outside of the class. -/
theorem head_dropWhile (p : Char → Bool) (cs : List Char) :
    ∀ d ∈ (cs.dropWhile p).head?, p d = false := by
  intro d hd
  have hne : cs.dropWhile p ≠ [] := by
    intro hnil
    simp [hnil] at hd
  have hhead := List.head_dropWhile_not p hne
  rw [List.head?_eq_some_head hne] at hd
  rw [← Option.some.inj hd]
  simpa using hhead

/-- What is taken has the parts of a number. -/
theorem parts_munched (hstart : startsNumber cs = true) {fraction after : List Char}
    (hfraction : Decimal.readFraction? (Decimal.spanDigits cs).2 = some (fraction, after)) :
    Parts (Decimal.spanDigits cs).1 fraction (spanExponent after).1 where
  whole _ := isDigit_of_mem_spanDigits
  fraction := isDigit_of_mem_readFraction? hfraction
  exponent := exponent_spanExponent after
  nonempty := by
    cases startsNumber_cases hstart with
    | inl hwhole => exact .inl hwhole
    | inr hpoint =>
      obtain ⟨d, rest, rfl, hd⟩ := hpoint
      have hread : Decimal.readFraction? ('.' :: d :: rest) =
          some (Decimal.spanDigits (d :: rest)) := by
        simp [readFraction?_point, Decimal.spanDigits, hd]
      obtain ⟨rfl, -⟩ := Prod.mk.inj (Option.some.inj (hread.symm.trans hfraction))
      exact .inr (by simp [hd])

/-- Without a fraction to read, digits go on with a point only. -/
theorem unfinished_of_readFraction? (hstart : startsNumber cs = true)
    (hnone : Decimal.readFraction? (Decimal.spanDigits cs).2 = none) : Unfinished cs := by
  have happend := spanDigits_append cs
  unfold Decimal.readFraction? at hnone
  split at hnone
  · next rest hrest =>
    dsimp only at hnone
    split at hnone
    · next hempty =>
      have hall := spanDigits_append rest
      rw [List.isEmpty_iff.1 hempty, List.nil_append] at hall
      have hends : ∀ d ∈ (Decimal.spanDigits rest).2.head?, d.isDigit = false :=
        head_dropWhile Char.isDigit rest
      rw [hall] at hends
      rw [hrest] at happend
      refine ⟨_, rest, ⟨?_, fun _ => isDigit_of_mem_spanDigits⟩, happend.symm, hends⟩
      intro hwhole
      cases startsNumber_cases hstart with
      | inl hne => exact hne hwhole
      | inr hpoint =>
        obtain ⟨d, rest', hcs, hd⟩ := hpoint
        rw [hwhole, List.nil_append, hcs] at happend
        obtain rfl := (List.cons.inj happend).2
        rw [hends d rfl] at hd
        cases hd
    · cases hnone
  · cases hnone

theorem munchNumber_unfinished (h : Unfinished cs) : munchNumber cs = .error .missingFraction := by
  obtain ⟨ds, rest, hds, rfl, hrest⟩ := h
  have hends : ∀ c ∈ ('.' :: rest).head?, c.isDigit = false := by
    intro c hc
    rw [← Option.some.inj hc]
    rfl
  have hspan := spanDigits_append_of_ends hds.2 hends
  have hnone : Decimal.spanDigits rest = ([], rest) :=
    spanDigits_append_of_ends (List.forall_mem_nil _) hrest
  rw [munchNumber, hspan]
  simp [readFraction?_point, hnone]

/-- **The longest number is taken** where a number starts, unless it is unfinished. -/
theorem munchNumber_longest (hstart : startsNumber cs = true) (h : ¬ Unfinished cs) :
    ∃ x text rest, munchNumber cs = .ok ⟨.number x, text, rest⟩ ∧
      LongestNumber text rest ∧ Decimal.read? text = some x := by
  cases hfraction : Decimal.readFraction? (Decimal.spanDigits cs).2 with
  | none => exact absurd (unfinished_of_readFraction? hstart hfraction) h
  | some found =>
    obtain ⟨fraction, after⟩ := found
    have hform := (parts_munched hstart hfraction).numberForm
    obtain ⟨x, hx⟩ := hform.exists_read?
    have htaken : ∃ text, text = (Decimal.spanDigits cs).1 ++
        (fractionText fraction ++ (spanExponent after).1) ∧
        munchNumber cs = .ok ⟨.number x, text, (spanExponent after).2⟩ := by
      rw [munchNumber]
      simp only [hfraction, hx]
      exact ⟨_, rfl, rfl⟩
    obtain ⟨text, rfl, hmunch⟩ := htaken
    refine ⟨x, _, _, hmunch, ⟨hform, fun t ht hfront => ?_⟩, hx⟩
    rw [munchNumber_append hmunch] at hfront
    obtain ⟨u, rfl⟩ := hfront
    obtain ⟨ds, fs, e, rfl, hparts⟩ := ht.exists_parts
    exact hparts.length_le (u := u) hfraction (by simp)

end GeoScript.Lexer
