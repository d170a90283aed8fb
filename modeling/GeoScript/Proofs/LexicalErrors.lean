import GeoScript.Proofs.NumberForms

/-!
# Lexical errors

**Tokens.** What a token takes in front of the rest of a text is told by the form of the token alone
(`Taken`): the longest number, a word as far as it goes, the longest symbol. It is what is munched
(`munch_eq_ok_iff`).

**Offences.** No token is taken just where a character starts none, and where a number is unfinished
(`munch_eq_error_iff`).

**Theorem (`scan_errors`).** Scanning fails if and only if one of the places that it reaches, gap by gap
and token by token, offends. Such a place is the only one, and the error tells the fault and the place.
Otherwise every number is the longest one where it stands; a mark without digits is left to the token
behind it. No text of a number is unreadable.
-/

namespace GeoScript.Lexer

open Token (Kind)

/-! ## Tokens by their form -/

/-- The token of the kind takes the text in front of the rest. -/
inductive Taken : Kind → List Char → List Char → Prop
  | number {x : Float} {text rest : List Char} : ¬ Unfinished (text ++ rest) →
    LongestNumber text rest → Decimal.read? text = some x → Taken (.number x) text rest
  | word {c : Char} {cs rest : List Char} : isIdentStart c = true →
    (∀ d ∈ cs, isIdentPart d = true) → (∀ d ∈ rest.head?, isIdentPart d = false) →
    Taken (.ofWord (String.ofList (c :: cs))) (c :: cs) rest
  | symbol {s : Symbol} {rest : List Char} :
    (∀ t : Symbol, t.text.toList <+: s.text.toList ++ rest →
      t.text.toList.length ≤ s.text.toList.length) →
    Taken (.symbol s) s.text.toList rest

/-- The text starts with a character that starts no token. -/
inductive StartsNone : List Char → Prop
  | mk {c : Char} {cs : List Char} : c.isDigit = false → isIdentStart c = false →
    (∀ s : Symbol, s.text.toList.head? ≠ some c) →
    (c = '.' → ∀ d ∈ cs.head?, d.isDigit = false) → StartsNone (c :: cs)

/-- A token that would start here fails with the fault. -/
inductive Offends : List Char → SyntaxFault → Prop
  | character {c : Char} {cs : List Char} : StartsNone (c :: cs) →
    Offends (c :: cs) (.unexpectedChar c)
  | number {cs : List Char} : Unfinished cs → Offends cs .missingFraction

variable {c : Char} {cs text rest before : List Char} {kind : Kind} {fault : SyntaxFault}

/-! ### Numbers -/

theorem startsNumber_of_numberForm (h : NumberForm text) (rest : List Char) :
    startsNumber (text ++ rest) = true := by
  have hpoint : ∀ {fs : List Char} (cs : List Char), Digits fs →
      startsNumber ('.' :: (fs ++ cs)) = true := by
    intro fs cs hfs
    obtain ⟨d, ds, rfl⟩ := List.exists_cons_of_ne_nil hfs.1
    simp [startsNumber, hfs.2 d List.mem_cons_self]
  have hdigits : ∀ {ds : List Char} (cs : List Char), Digits ds →
      startsNumber (ds ++ cs) = true := by
    intro ds cs hds
    obtain ⟨d, ds', rfl⟩ := List.exists_cons_of_ne_nil hds.1
    exact startsNumber_of_isDigit (hds.2 d List.mem_cons_self) _
  have hsignificand : ∀ {s : List Char} (cs : List Char), Significand s →
      startsNumber (s ++ cs) = true := by
    intro s cs hs
    cases hs with
    | whole hds => exact hdigits cs hds
    | fraction hds _ =>
      rw [List.append_assoc]
      exact hdigits _ hds
    | point hfs => exact hpoint cs hfs
  cases h with
  | plain hs => exact hsignificand rest hs
  | scaled hs _ =>
    rw [List.append_assoc]
    exact hsignificand _ hs

theorem startsNumber_of_unfinished (h : Unfinished cs) : startsNumber cs = true := by
  obtain ⟨ds, rest, hds, rfl, -⟩ := h
  exact startsNumber_of_numberForm (.plain (.whole hds)) _

/-- There is one longest number in front of a text. -/
theorem LongestNumber.unique {text' rest' : List Char} (h : LongestNumber text rest)
    (h' : LongestNumber text' rest') (heq : text ++ rest = text' ++ rest') :
    text = text' ∧ rest = rest' := by
  have hle := h'.longest text h.form (heq ▸ List.prefix_append text rest)
  have hge := h.longest text' h'.form (heq ▸ List.prefix_append text' rest')
  exact List.append_inj heq (Nat.le_antisymm hle hge)

/-! ### Symbols -/

theorem symbol_fits_head (s : Symbol) :
    ∃ c, s.text.toList.head? = some c ∧ ∃ t ∈ Symbol.all, t.text.toList = [c] := by
  cases s <;> exact ⟨_, rfl, by decide +kernel⟩

theorem mem_symbols (s : Symbol) : s ∈ Symbol.all := by
  cases s <;> decide

theorem symbols_sorted : Symbol.all.Pairwise fun s t =>
    t.text.toList.length ≤ s.text.toList.length := by
  decide +kernel

theorem eq_of_symbol_text {s t : Symbol} (h : s.text.toList = t.text.toList) : s = t := by
  have hall : ∀ s ∈ Symbol.all, ∀ t ∈ Symbol.all, s.text.toList = t.text.toList → s = t := by
    decide +kernel
  exact hall s (mem_symbols s) t (mem_symbols t) h

/-- The first symbol that fits is the longest. -/
theorem find?_symbol_eq_some_iff {s : Symbol} :
    Symbol.all.find? (fun s => s.text.toList.isPrefixOf cs) = some s ↔ s.text.toList <+: cs ∧
      ∀ t : Symbol, t.text.toList <+: cs → t.text.toList.length ≤ s.text.toList.length := by
  have hlongest : ∀ {s : Symbol}, Symbol.all.find? (fun s => s.text.toList.isPrefixOf cs) = some s →
      s.text.toList <+: cs ∧
        ∀ t : Symbol, t.text.toList <+: cs → t.text.toList.length ≤ s.text.toList.length := by
    intro s h
    obtain ⟨hs, before, after, hall, hbefore⟩ := List.find?_eq_some_iff_append.1 h
    refine ⟨List.isPrefixOf_iff_prefix.1 hs, fun t ht => ?_⟩
    have hsorted := symbols_sorted
    have hmem := mem_symbols t
    rw [hall] at hsorted hmem
    have htail := (List.pairwise_append.1 hsorted).2.1
    simp only [List.mem_append, List.mem_cons] at hmem
    rcases hmem with hmem | rfl | hmem
    · have hnot := hbefore t hmem
      simp [List.isPrefixOf_iff_prefix.2 ht] at hnot
    · exact Nat.le_refl _
    · exact (List.pairwise_cons.1 htail).1 t hmem
  refine ⟨hlongest, fun h => ?_⟩
  obtain ⟨hfits, hmost⟩ := h
  cases hfind : Symbol.all.find? (fun s => s.text.toList.isPrefixOf cs) with
  | none =>
    have hnot := List.find?_eq_none.1 hfind s (mem_symbols s)
    exact absurd (List.isPrefixOf_iff_prefix.2 hfits) hnot
  | some t =>
    obtain ⟨hfits', hmost'⟩ := hlongest hfind
    have hfront := List.prefix_of_prefix_length_le hfits' hfits (hmost t hfits')
    exact congrArg some (eq_of_symbol_text
      (hfront.eq_of_length (Nat.le_antisymm (hmost t hfits') (hmost' s hfits))))

/-- No symbol fits just where none starts with the character. -/
theorem find?_symbol_eq_none_iff :
    Symbol.all.find? (fun s => s.text.toList.isPrefixOf (c :: cs)) = none ↔
      ∀ s : Symbol, s.text.toList.head? ≠ some c := by
  rw [List.find?_eq_none]
  constructor
  · intro h s hs
    obtain ⟨c', hc', t, ht, htext⟩ := symbol_fits_head s
    obtain rfl : c' = c := Option.some.inj (hc'.symm.trans hs)
    apply h t ht
    simp [htext]
  · intro h s _ hfits
    obtain ⟨c', hc', -⟩ := symbol_fits_head s
    obtain ⟨rest, hrest⟩ := List.isPrefixOf_iff_prefix.1 hfits
    apply h s
    obtain ⟨cs', hcs'⟩ : ∃ cs', s.text.toList = c' :: cs' := List.head?_eq_some_iff.1 hc'
    rw [hcs'] at hrest ⊢
    rw [(List.cons.inj hrest).1]
    rfl

/-- A symbol starts with a character of ASCII that is no digit, no point and no letter. -/
theorem symbol_head (s : Symbol) : ∃ c cs, s.text.toList = c :: cs ∧
    c.isDigit = false ∧ c ≠ '.' ∧ isIdentStart c = false ∧ c.toNat < 128 := by
  refine ⟨s.text.toList.headD ' ', s.text.toList.tail, ?_, ?_, ?_, ?_, ?_⟩ <;> cases s <;> decide

/-! ### What is munched -/

theorem startsNumber_eq_false (hc : c.isDigit = false)
    (hpoint : c = '.' → ∀ d ∈ cs.head?, d.isDigit = false) : startsNumber (c :: cs) = false := by
  cases cs with
  | nil => exact hc
  | cons d cs =>
    by_cases hdot : c = '.'
    · simp [startsNumber, hc, hpoint hdot d rfl]
    · simp [startsNumber, hc, hdot]

theorem taken_of_munch (h : munch c cs = .ok ⟨kind, text, rest⟩) : Taken kind text rest := by
  have happend : text ++ rest = c :: cs := munch_append h
  unfold munch at h
  split at h
  · next hstart =>
    by_cases hunfinished : Unfinished (c :: cs)
    · rw [munchNumber_unfinished hunfinished] at h
      cases h
    · obtain ⟨x, text', rest', hmunch, hlongest, hread⟩ := munchNumber_longest hstart hunfinished
      obtain ⟨rfl, rfl, rfl⟩ := Lexeme.mk.inj (Except.ok.inj (hmunch.symm.trans h))
      rw [← happend] at hunfinished
      exact .number hunfinished hlongest hread
  split at h
  · next hstart =>
    obtain ⟨rfl, rfl, rfl⟩ := Lexeme.mk.inj (Except.ok.inj h)
    apply Taken.word hstart
    · exact fun d hd => List.all_eq_true.1 List.all_takeWhile d hd
    · exact head_dropWhile isIdentPart cs
  split at h
  · next s hfind =>
    obtain ⟨rfl, rfl, rfl⟩ := Lexeme.mk.inj (Except.ok.inj h)
    obtain ⟨-, hmost⟩ := find?_symbol_eq_some_iff.1 hfind
    rw [← happend] at hmost
    exact .symbol hmost
  · cases h

theorem munch_of_taken (h : Taken kind text rest) (heq : c :: cs = text ++ rest) :
    munch c cs = .ok ⟨kind, text, rest⟩ := by
  cases h with
  | number hfinished hlongest hread =>
    rw [← heq] at hfinished
    have hstart : startsNumber (c :: cs) = true :=
      heq ▸ startsNumber_of_numberForm hlongest.form rest
    obtain ⟨x', text', rest', hmunch, hlongest', hread'⟩ := munchNumber_longest hstart hfinished
    have happend : text' ++ rest' = c :: cs := munchNumber_append hmunch
    obtain ⟨rfl, rfl⟩ := hlongest.unique hlongest' (heq.symm.trans happend.symm)
    obtain rfl := Option.some.inj (hread.symm.trans hread')
    rw [munch, if_pos hstart, hmunch]
  | word hstart hparts hends =>
    obtain ⟨rfl, rfl⟩ := List.cons.inj heq
    obtain ⟨htake, hdrop⟩ := takeWhile_dropWhile_append hparts hends
    rw [munch, startsNumber_of_isIdentStart hstart]
    simp [hstart, munchWord, htake, hdrop]
  | @symbol s _ hmost =>
    obtain ⟨c', cs', htext, hdigit, hpoint, hident, -⟩ := symbol_head s
    have hc : c = c' := by
      rw [htext] at heq
      exact (List.cons.inj heq).1
    have hnumber : startsNumber (c :: cs) = false :=
      startsNumber_eq_false (hc ▸ hdigit) fun hdot => absurd (hc ▸ hdot) hpoint
    have hfind := find?_symbol_eq_some_iff.2 ⟨heq ▸ List.prefix_append _ rest, heq ▸ hmost⟩
    have hident' : isIdentStart c = false := hc ▸ hident
    rw [munch, hnumber, hident', if_neg Bool.false_ne_true, if_neg Bool.false_ne_true, hfind]
    simp [heq]

/-- **What is munched** is what a token takes by its form. -/
theorem munch_eq_ok_iff : munch c cs = .ok ⟨kind, text, rest⟩ ↔
    c :: cs = text ++ rest ∧ Taken kind text rest :=
  ⟨fun h => ⟨(munch_append h).symm, taken_of_munch h⟩, fun h => munch_of_taken h.2 h.1⟩

/-- **Nothing is munched** where the text offends. -/
theorem munch_eq_error_iff : munch c cs = .error fault ↔ Offends (c :: cs) fault := by
  constructor
  · intro h
    unfold munch at h
    split at h
    · next hstart =>
      by_cases hunfinished : Unfinished (c :: cs)
      · rw [munchNumber_unfinished hunfinished] at h
        exact Except.error.inj h ▸ .number hunfinished
      · obtain ⟨x, text, rest, hmunch, -⟩ := munchNumber_longest hstart hunfinished
        rw [hmunch] at h
        cases h
    next hstart =>
    split at h
    · cases h
    next hident =>
    split at h
    · cases h
    · next hfind =>
      obtain rfl := Except.error.inj h
      have hdigit : c.isDigit = false := by
        by_cases hc : c.isDigit = true
        · exact absurd (startsNumber_of_isDigit hc cs) hstart
        · simpa using hc
      refine .character (.mk hdigit (by simpa using hident) (find?_symbol_eq_none_iff.1 hfind) ?_)
      intro hdot d hd
      by_cases hdigit' : d.isDigit = true
      · obtain ⟨cs', rfl⟩ : ∃ cs', cs = d :: cs' := List.head?_eq_some_iff.1 hd
        exact absurd (by simp [startsNumber, hdot, hdigit']) hstart
      · simpa using hdigit'
  · intro h
    cases h with
    | character hnone =>
      cases hnone with
      | mk hdigit hident hsymbol hpoint =>
        rw [munch, startsNumber_eq_false hdigit hpoint, hident]
        simp [find?_symbol_eq_none_iff.2 hsymbol]
    | number hunfinished =>
      rw [munch, if_pos (startsNumber_of_unfinished hunfinished),
        munchNumber_unfinished hunfinished]

/-! ## Places that scanning reaches -/

/-- Neither a blank nor a comment is next. -/
def Fresh (rest : List Char) : Prop := ∀ c ∈ rest.head?, isBreak c = false

/-- Gap by gap and token by token, scanning passes over the text in front of the rest. -/
inductive Reaches : List Char → List Char → Prop
  | here {gap rest : List Char} : Gap false gap → Fresh rest → Reaches gap rest
  | token {gap text before rest : List Char} {kind : Kind} : Gap false gap →
    Taken kind text (before ++ rest) → Reaches before rest → Reaches (gap ++ (text ++ before)) rest

theorem skipTrivia_comment {body : List Char} (h : '\n' ∉ body) (p : Position) (cs : List Char) :
    skipTrivia true p (body ++ '\n' :: cs) =
      skipTrivia false ((p.afterText body).after '\n') cs := by
  induction body generalizing p with
  | nil => rfl
  | cons c body ih =>
    rw [List.mem_cons, not_or] at h
    have hc : (c != '\n') = true := by simpa using Ne.symm h.1
    rw [List.cons_append, skipTrivia, if_pos rfl, hc, ih h.2, Position.afterText_cons]

/-- A gap is skipped, up to what is fresh. -/
theorem skipTrivia_gap {gap : List Char} (h : Gap false gap) (hfresh : Fresh rest) (p : Position) :
    skipTrivia false p (gap ++ rest) = (p.afterText gap, rest) := by
  induction h generalizing p with
  | nil =>
    cases rest with
    | nil => rfl
    | cons c rest =>
      have hc := hfresh c rfl
      simp only [isBreak, Bool.or_eq_false_iff, beq_eq_false_iff_ne] at hc
      exact skipTrivia_stop hc.1 hc.2 p rest
  | @blank c gap hblank _ ih =>
    rw [List.cons_append, skipTrivia, if_neg (by simp), if_pos hblank, ih, Position.afterText_cons]
  | @comment body gap hbody _ ih =>
    have hskip := skipTrivia_comment hbody (p.after '#') (gap ++ rest)
    rw [ih, ← Position.afterText_cons, ← Position.afterText_cons, ← Position.afterText_append] at hskip
    simpa [skipTrivia, isBlank] using hskip
  | lastComment hend => cases hend

theorem fresh_of_skipTrivia {inComment : Bool} {p q : Position} {cs rest : List Char}
    (h : skipTrivia inComment p cs = (q, rest)) : Fresh rest := by
  induction cs generalizing inComment p with
  | nil =>
    obtain ⟨-, rfl⟩ := Prod.mk.inj h
    nofun
  | cons c cs ih =>
    unfold skipTrivia at h
    split at h
    · exact ih h
    split at h
    · exact ih h
    split at h
    · exact ih h
    next hblank hcomment =>
    obtain ⟨-, rfl⟩ := Prod.mk.inj h
    intro d hd
    rw [← Option.some.inj hd, isBreak, Bool.or_eq_false_iff]
    exact ⟨by simpa using hblank, by simpa using hcomment⟩

/-- A token starts with something fresh. -/
theorem Taken.exists_cons (h : Taken kind text rest) :
    ∃ c cs, text ++ rest = c :: cs ∧ munch c cs = .ok ⟨kind, text, rest⟩ ∧ Fresh (c :: cs) := by
  have hne : text ≠ [] := by
    cases h with
    | number _ hlongest =>
      intro hnil
      have hstart := startsNumber_of_numberForm hlongest.form []
      rw [hnil] at hstart
      cases hstart
    | word => exact List.cons_ne_nil _ _
    | symbol =>
      obtain ⟨c, cs, hcons, -⟩ := symbol_head ‹Symbol›
      rw [hcons]
      exact List.cons_ne_nil c cs
  obtain ⟨c, cs, rfl⟩ := List.exists_cons_of_ne_nil hne
  have hmunch := munch_of_taken h rfl
  refine ⟨c, cs ++ rest, rfl, hmunch, fun d hd => ?_⟩
  rw [← Option.some.inj hd]
  exact (munch_spec hmunch).1 c List.mem_cons_self

/-- Among the tokens only numbers are of the form of numbers. -/
theorem Taken.longest {x : Float} (h : Taken (.number x) text rest) :
    LongestNumber text rest ∧ Decimal.read? text = some x := by
  generalize hkind : Kind.number x = kind at h
  cases h with
  | number _ hlongest hread =>
    rw [Kind.number.inj hkind]
    exact ⟨hlongest, hread⟩
  | word => exact absurd hkind.symm ((ofWord_ne _).2 x)
  | symbol => cases hkind

/-- A place behind a token is reached if the place of the token is. -/
theorem Reaches.step (h : Reaches before (text ++ rest)) (htaken : Taken kind text rest)
    (hfresh : Fresh rest) : Reaches (before ++ text) rest := by
  generalize hplace : text ++ rest = place at h
  induction h with
  | here hgap =>
    rw [← List.append_nil text]
    exact .token hgap htaken (.here .nil hfresh)
  | token hgap htaken' _ ih =>
    subst hplace
    rw [List.append_assoc, List.append_assoc]
    apply Reaches.token hgap
    · rwa [List.append_assoc]
    · exact ih rfl

/-! ## Scanning -/

theorem scanFrom_error {p q : Position} (hs : skipTrivia false p cs = (q, c :: rest))
    (hm : munch c rest = .error fault) (done : List Token) :
    scanFrom p cs done = .error ⟨fault, q⟩ := by
  rw [scanFrom]
  split
  · next q' hs' => cases (Prod.mk.inj (hs'.symm.trans hs)).2
  · next q' c' rest' hs' =>
    obtain ⟨rfl, hcons⟩ := Prod.mk.inj (hs'.symm.trans hs)
    obtain ⟨rfl, rfl⟩ := List.cons.inj hcons
    split
    · next fault' hm' =>
      rw [hm] at hm'
      rw [Except.error.inj hm']
    · next l hm' =>
      rw [hm] at hm'
      cases hm'

/-- Scanning fails where it reaches an offence. -/
theorem scanFrom_of_reaches (h : Reaches before rest) (ho : Offends rest fault) (p : Position)
    (done : List Token) :
    scanFrom p (before ++ rest) done = .error ⟨fault, p.afterText before⟩ := by
  induction h generalizing p done with
  | @here gap rest hgap hfresh =>
    obtain ⟨c, cs, rfl⟩ : ∃ c cs, rest = c :: cs := by
      cases ho with
      | character => exact ⟨_, _, rfl⟩
      | number hunfinished =>
        have hstart := startsNumber_of_unfinished hunfinished
        cases rest with
        | nil => cases hstart
        | cons c cs => exact ⟨c, cs, rfl⟩
    exact scanFrom_error (skipTrivia_gap hgap hfresh p) (munch_eq_error_iff.2 ho) done
  | @token gap text before rest kind hgap htaken _ ih =>
    obtain ⟨c, cs, hcons, hmunch, hfresh⟩ := htaken.exists_cons
    have hskip := skipTrivia_gap hgap hfresh p
    rw [List.append_assoc, List.append_assoc, hcons, scanFrom_step hskip hmunch, ih ho,
      Position.afterText_append, Position.afterText_append]

/-- Where scanning fails it has reached an offence. -/
theorem exists_reaches_of_scanFrom {p : Position} {done : List Token} {e : SyntaxError}
    (h : scanFrom p cs done = .error e) : ∃ before rest, cs = before ++ rest ∧
      Reaches before rest ∧ Offends rest e.fault ∧ e.position = p.afterText before := by
  induction p, cs, done using scanFrom.induct with
  | case1 p cs done q hs =>
    rw [scanFrom_end hs] at h
    cases h
  | case2 p cs done q c rest hs fault hm =>
    obtain rfl := Except.error.inj ((scanFrom_error hs hm done).symm.trans h)
    obtain ⟨gap, rfl, rfl⟩ := exists_gap hs
    exact ⟨gap, c :: rest, rfl, .here (gap_of_skipped hs) (fresh_of_skipTrivia hs),
      munch_eq_error_iff.1 hm, rfl⟩
  | case3 p cs done q c rest hs l hm ih =>
    rw [scanFrom_step hs hm] at h
    obtain ⟨before, rest', hrest, hreaches, hoffends, hposition⟩ := ih h
    obtain ⟨gap, rfl, rfl⟩ := exists_gap hs
    obtain ⟨htext, htaken⟩ := munch_eq_ok_iff.1 hm
    refine ⟨gap ++ (l.text ++ before), rest', ?_, ?_, hoffends, ?_⟩
    · rw [htext, hrest, List.append_assoc, List.append_assoc]
    · exact .token (gap_of_skipped hs) (hrest ▸ htaken) hreaches
    · rw [hposition, Position.afterText_append, Position.afterText_append]

/-- **Every token** but the end mark takes its text at a place that scanning reaches. -/
theorem Spaced.taken {p : Position} {gaps : List (List Char)} {ts : List Token}
    (h : Spaced p cs gaps ts) : ∀ t ∈ ts, t.kind ≠ .eof → ∃ before text rest,
      cs = before ++ (text ++ rest) ∧ Reaches before (text ++ rest) ∧ Taken t.kind text rest ∧
      t.position = p.afterText before ∧ t.length = byteLength text := by
  induction h with
  | done =>
    intro t ht hkind
    obtain rfl := List.mem_singleton.1 ht
    exact absurd rfl hkind
  | @lexeme p gap cs c l gaps ts hskip hmunch _ ih =>
    obtain ⟨htext, htaken⟩ := munch_eq_ok_iff.1 hmunch
    have hgap : Gap false gap := gap_of_skipped hskip
    intro t ht hkind
    rcases List.mem_cons.1 ht with rfl | ht
    · refine ⟨gap, l.text, l.rest, by rw [htext], ?_, htaken, rfl, rfl⟩
      rw [← htext]
      exact .here hgap (fresh_of_skipTrivia hskip)
    · obtain ⟨before, text, rest, hrest, hreaches, htaken', hposition, hlength⟩ := ih t ht hkind
      refine ⟨gap ++ (l.text ++ before), text, rest, ?_, ?_, htaken', ?_, hlength⟩
      · rw [htext, hrest, List.append_assoc, List.append_assoc]
      · exact .token hgap (hrest ▸ htaken) hreaches
      · rw [hposition, Position.afterText_append, Position.afterText_append]

/-! ## The theorem -/

/-- A place that offends is the only one. -/
theorem Reaches.unique {before' rest' : List Char} {fault' : SyntaxFault}
    (h : Reaches before rest) (ho : Offends rest fault) (h' : Reaches before' rest')
    (ho' : Offends rest' fault') (heq : before ++ rest = before' ++ rest') : before = before' := by
  have hscan := scanFrom_of_reaches h ho .start []
  rw [heq, scanFrom_of_reaches h' ho' .start []] at hscan
  have hplace : Position.start.afterText before' = Position.start.afterText before :=
    congrArg SyntaxError.position (Except.error.inj hscan)
  have hlonger : ∀ {cs ds : List Char},
      Position.start.afterText (cs ++ ds) = Position.start.afterText cs → ds = [] := by
    intro cs ds hds
    by_cases hne : ds = []
    · exact hne
    · rw [Position.afterText_append] at hds
      exact absurd hds.symm (Position.before_afterText hne _).ne
  rcases List.append_eq_append_iff.1 heq with ⟨ds, rfl, -⟩ | ⟨ds, rfl, -⟩
  · rw [hlonger hplace, List.append_nil]
  · rw [hlonger hplace.symm, List.append_nil]

/-- No character outside of ASCII starts a token. -/
theorem startsNone_of_not_ascii (hc : 128 ≤ c.toNat) (cs : List Char) : StartsNone (c :: cs) := by
  have hletter : isLetter c = false := by
    simp only [isLetter, Char.le_def, UInt32.le_iff_toNat_le, Bool.or_eq_false_iff,
      Bool.and_eq_false_iff, decide_eq_false_iff_not]
    simp
    omega
  have hdigit : c.isDigit = false := by
    simp only [Char.isDigit, Bool.and_eq_false_iff, decide_eq_false_iff_not, ge_iff_le,
      UInt32.le_iff_toNat_le]
    simp
    omega
  have hne : ∀ d : Char, d.toNat < 128 → c ≠ d := by
    intro d hd heq
    rw [heq] at hc
    exact absurd hd (Nat.not_lt.2 hc)
  refine .mk hdigit ?_ ?_ ?_
  · simp [isIdentStart, hletter, hne '$' (by decide)]
  · intro s hs
    obtain ⟨d, cs', htext, -, -, -, hd⟩ := symbol_head s
    rw [htext] at hs
    exact hne d hd (Option.some.inj hs).symm
  · intro hdot
    exact absurd hdot (hne '.' (by decide))

theorem startsNone_point_iff : StartsNone ('.' :: cs) ↔ ∀ d ∈ cs.head?, d.isDigit = false := by
  constructor
  · intro h
    cases h with
    | mk _ _ _ hpoint => exact hpoint rfl
  · intro h
    refine .mk rfl rfl (fun s => ?_) fun _ => h
    cases s <;> decide

/-- **Lexical errors** are the offences that scanning reaches, and the numbers of a text that has none
are the longest. -/
theorem scan_errors (source : String) :
    (∀ fault p, scan source = .error ⟨fault, p⟩ ↔ ∃ before rest, source.toList = before ++ rest ∧
      Reaches before rest ∧ Offends rest fault ∧ p = .behind before) ∧
    (∀ before rest fault before' rest' fault', source.toList = before ++ rest →
      source.toList = before' ++ rest' → Reaches before rest → Offends rest fault →
      Reaches before' rest' → Offends rest' fault' → before = before') ∧
    (∀ rest fault, Offends rest fault →
      StartsNone rest ∧ fault.code = "L001" ∨ Unfinished rest ∧ fault.code = "L002") ∧
    (∀ cs, StartsNone ('.' :: cs) ↔ ∀ d ∈ cs.head?, d.isDigit = false) ∧
    (∀ c cs, 128 ≤ c.toNat → StartsNone (c :: cs)) ∧
    (∀ ts, scan source = .ok ts → ∀ t ∈ ts, ∀ x, t.kind = .number x → ∃ before text rest,
      source.toList = before ++ (text ++ rest) ∧ Reaches before (text ++ rest) ∧
      LongestNumber text rest ∧ Decimal.read? text = some x ∧
      t = ⟨.number x, .behind before, (String.ofList text).utf8ByteSize⟩ ∧
      ∀ mark more, rest = mark :: more → mark = 'e' ∨ mark = 'E' →
        Reaches (before ++ text) rest) ∧
    (∀ text p, scan source ≠ .error ⟨.unreadableNumber text, p⟩) ∧
    ∀ text, NumberForm text → ∃ x, Decimal.read? text = some x := by
  have herror : ∀ fault p, scan source = .error ⟨fault, p⟩ ↔ ∃ before rest,
      source.toList = before ++ rest ∧ Reaches before rest ∧ Offends rest fault ∧
      p = .behind before := by
    intro fault p
    constructor
    · intro h
      obtain ⟨before, rest, hsource, hreaches, hoffends, hposition⟩ := exists_reaches_of_scanFrom h
      rw [Position.afterText_start] at hposition
      exact ⟨before, rest, hsource, hreaches, hoffends, hposition⟩
    · intro h
      obtain ⟨before, rest, hsource, hreaches, hoffends, hposition⟩ := h
      rw [scan, hsource, scanFrom_of_reaches hreaches hoffends, hposition, Position.afterText_start]
  refine ⟨herror, ?_, ?_, fun cs => startsNone_point_iff, fun c cs hc => startsNone_of_not_ascii hc cs,
    ?_, ?_, fun text h => h.exists_read?⟩
  · intro before rest fault before' rest' fault' hsource hsource' hreaches hoffends hreaches' hoffends'
    exact hreaches.unique hoffends hreaches' hoffends' (hsource.symm.trans hsource')
  · intro rest fault h
    cases h with
    | character hnone => exact .inl ⟨hnone, rfl⟩
    | number hunfinished => exact .inr ⟨hunfinished, rfl⟩
  · intro ts hts t ht x hx
    obtain ⟨gaps, hspaced⟩ := scan_eq_ok_iff.1 hts
    obtain ⟨before, text, rest, hsource, hreaches, htaken, hposition, hlength⟩ :=
      hspaced.taken t ht (by simp [hx])
    rw [hx] at htaken
    obtain ⟨hlongest, hread⟩ := htaken.longest
    rw [Position.afterText_start] at hposition
    rw [byteLength_eq] at hlength
    refine ⟨before, text, rest, hsource, hreaches, hlongest, hread, ?_, ?_⟩
    · rw [← hx, ← hposition, ← hlength]
    · intro mark more hrest hmark
      refine hreaches.step htaken fun c hc => ?_
      rw [hrest] at hc
      rw [← Option.some.inj hc]
      cases hmark with
      | inl he => rw [he]; rfl
      | inr he => rw [he]; rfl
  · intro text p h
    obtain ⟨before, rest, -, -, hoffends, -⟩ := (herror _ p).1 h
    cases hoffends

/-- A comment outside of ASCII in front of a number that is unfinished, and two numbers that touch. -/
theorem scan_errors_unfinished :
    scan "2 # é\n1..5" = .error ⟨.missingFraction, ⟨2, 1⟩⟩ ∧
    (∃ before rest, "2 # é\n1..5".toList = before ++ rest ∧ Reaches before rest ∧
      Offends rest .missingFraction ∧ (⟨2, 1⟩ : Position) = .behind before) ∧
    scan "1.5.5" = .ok [⟨.number 1.5, ⟨1, 1⟩, 3⟩, ⟨.number 0.5, ⟨1, 4⟩, 2⟩, ⟨.eof, ⟨1, 6⟩, 0⟩] ∧
    ∃ before text rest, "1.5.5".toList = before ++ (text ++ rest) ∧ LongestNumber text rest ∧
      Decimal.read? text = some 1.5 := by
  have hfails : scan "2 # é\n1..5" = .error ⟨.missingFraction, ⟨2, 1⟩⟩ :=
    (scanFrom_step rfl rfl []).trans (scanFrom_error rfl rfl _)
  have hscan : scan "1.5.5" =
      .ok [⟨.number 1.5, ⟨1, 1⟩, 3⟩, ⟨.number 0.5, ⟨1, 4⟩, 2⟩, ⟨.eof, ⟨1, 6⟩, 0⟩] :=
    (scanFrom_step rfl rfl []).trans <| (scanFrom_step rfl rfl _).trans (scanFrom_end rfl _)
  refine ⟨hfails, ((scan_errors _).1 _ _).1 hfails, hscan, ?_⟩
  obtain ⟨before, text, rest, hsource, -, hlongest, hread, -⟩ :=
    (scan_errors "1.5.5").2.2.2.2.2.1 _ hscan _ List.mem_cons_self 1.5 rfl
  exact ⟨before, text, rest, hsource, hlongest, hread⟩

end GeoScript.Lexer
