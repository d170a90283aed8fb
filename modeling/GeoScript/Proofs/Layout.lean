import GeoScript.Proofs.Lexing
import GeoScript.Session

/-!
# Layout

**Where layout matters.** Reading looks at places for one purpose only: to tell whether the sign in
front of a number belongs to a coordinate. For this it asks whether the sign touches the number, and
whether the token before touches the sign (`signLayout`).

**Two readings.** Two token lists with the same kinds, whose signs in front of numbers stand alike,
are read side by side (`Parallel.relaid`). The place of each token in the one list is relocated to
the place of its counterpart in the other.

**Theorem (`layout_irrelevant`).** Such texts give the same tree up to places, or fail with the same
fault at the same token.
-/

namespace GeoScript

open Token (Kind)
open TokenReader Grammar

/-! ## Cursors of an index -/

namespace Cursor

variable {tokens : List Token} {c : Cursor}

theorem Within.kind (hc : c.Within tokens) :
    (tokens.map Token.kind)[c.index]? = some c.kind := by
  rw [List.getElem?_map, hc.token]
  rfl

theorem Within.secondKind? (hc : c.Within tokens) :
    c.secondKind? = (tokens.map Token.kind)[c.index + 1]? := by
  rw [Cursor.secondKind?, hc.getElem?, List.getElem?_map]

theorem Within.index_advance (hend : EndMarked tokens) (hc : c.Within tokens) (hk : c.kind ≠ .eof) :
    c.advance.index = c.index + 1 := by
  obtain ⟨t, u, us, hrest⟩ := hc.exists_rest hend hk
  rw [Cursor.advance, hrest]

end Cursor

/-! ## Where layout matters -/

def Token.Kind.isSign : Kind → Bool
  | .symbol .plus | .symbol .minus => true
  | _ => false

def Token.Kind.isNumber : Kind → Bool
  | .number _ => true
  | _ => false

/-- For a sign in front of a number: whether it touches the number, and whether the token before it,
if there is one, touches it. -/
def signLayout (ts : List Token) (i : Nat) : Option (Bool × Option Bool) :=
  match ts[i]?, ts[i + 1]? with
  | some sign, some number =>
    if sign.kind.isSign && number.kind.isNumber then
      some (sign.touches number, (ts.take i).getLast?.map fun before => before.touches sign)
    else none
  | _, _ => none

theorem Cursor.Within.signLayout_eq {tokens : List Token} {c : Cursor} (hc : c.Within tokens)
    (hsign : c.kind.isSign = true) {number : Token} (hnext : c.rest[1]? = some number)
    (hnumber : number.kind.isNumber = true) : signLayout tokens c.index =
      some (c.token.touches number, c.previous.map fun before => before.touches c.token) := by
  have hsign' : c.token.kind.isSign = true := hsign
  rw [hc.getElem?] at hnext
  simp [signLayout, hc.token, hnext, hsign', hnumber, hc.eq_drop.1]

/-- The lists have the same kinds of tokens, and signs in front of numbers stand alike. -/
structure SameLayout (ts us : List Token) : Prop where
  kinds : us.map Token.kind = ts.map Token.kind
  signs (i : Nat) : signLayout us i = signLayout ts i

namespace SameLayout

variable {ts us : List Token} (h : SameLayout ts us) {c d : Cursor} (hc : c.Within ts)
  (hd : d.Within us) (hindex : d.index = c.index)
include h hc hd hindex

theorem kind : d.kind = c.kind := by
  have hkind := hd.kind
  rw [hindex, h.kinds, hc.kind] at hkind
  exact (Option.some.inj hkind).symm

theorem secondKind? : d.secondKind? = c.secondKind? := by
  rw [hd.secondKind?, hc.secondKind?, hindex, h.kinds]

theorem previous : d.previous.map Token.kind = c.previous.map Token.kind := by
  rw [hd.eq_drop.1, hc.eq_drop.1, hindex, ← List.getLast?_map, ← List.getLast?_map, List.map_take,
    List.map_take, h.kinds]

theorem advance (hend : EndMarked ts) (hend' : EndMarked us) (hk : c.kind ≠ .eof) :
    c.advance.Within ts ∧ d.advance.Within us ∧ d.advance.index = c.advance.index := by
  have hk' : d.kind ≠ .eof := by rwa [h.kind hc hd hindex]
  refine ⟨(hc.advance hend hk).1, (hd.advance hend' hk').1, ?_⟩
  rw [hc.index_advance hend hk, hd.index_advance hend' hk', hindex]

/-- Whether a sign belongs to a coordinate is seen from its layout. -/
theorem atCoordinateSign (hsign : c.kind.isSign = true) :
    d.atCoordinateSign = c.atCoordinateSign := by
  have hsecond := h.secondKind? hc hd hindex
  unfold Cursor.secondKind? at hsecond
  unfold Cursor.atCoordinateSign
  cases hnext : c.rest[1]? with
  | none =>
    have hnext' : d.rest[1]? = none := by simpa [hnext] using hsecond
    rw [hnext']
  | some number =>
    obtain ⟨number', hnext', heq⟩ : ∃ number', d.rest[1]? = some number' ∧
        number'.kind = number.kind := by
      simpa [hnext] using hsecond
    simp only [hnext', heq]
    cases hk : number.kind with
    | number x =>
      have hsign' : d.kind.isSign = true := by rw [h.kind hc hd hindex, hsign]
      have hlayout := h.signs c.index
      rw [← hindex, hd.signLayout_eq hsign' hnext' (by rw [heq, hk]; rfl), hindex,
        hc.signLayout_eq hsign hnext (by rw [hk]; rfl)] at hlayout
      obtain ⟨hnumber, hbefore⟩ := Prod.mk.inj (Option.some.inj hlayout)
      have hprevious := h.previous hc hd hindex
      rw [hnumber]
      cases hp : c.previous with
      | none =>
        have hp' : d.previous = none := by simpa [hp] using hprevious
        rw [hp']
      | some u =>
        obtain ⟨u', hp', hu⟩ : ∃ u', d.previous = some u' ∧ u'.kind = u.kind := by
          simpa [hp] using hprevious
        have htouches : u'.touches d.token = u.touches c.token := by
          simpa [hp, hp'] using hbefore
        simp only [hp', hu, htouches]
    | _ => rfl

end SameLayout

/-! ## Relocation -/

/-- Takes the place of a token in the one list to the place of its counterpart in the other. -/
def relocate (ts us : List Token) (p : Position) : Position :=
  ((ts.zip us).find? fun tu => tu.1.position == p).elim p fun tu => tu.2.position

theorem relocate_eq {ts us : List Token}
    (hts : ts.Pairwise fun t u => t.position.Before u.position) {i : Nat} {t u : Token}
    (ht : ts[i]? = some t) (hu : us[i]? = some u) : relocate ts us t.position = u.position := by
  induction ts generalizing us i with
  | nil => cases ht
  | cons t₀ ts ih =>
    cases us with
    | nil => cases hu
    | cons u₀ us =>
      obtain ⟨hfirst, hrest⟩ := List.pairwise_cons.1 hts
      cases i with
      | zero =>
        obtain rfl := Option.some.inj ht
        obtain rfl := Option.some.inj hu
        simp [relocate]
      | succ i =>
        have hne := (hfirst t (List.mem_of_getElem? ht)).ne
        have htail := ih hrest ht hu
        simpa [relocate, hne] using htail

/-! ## Two lists of the same layout -/

/-- Two readings of lists of the same layout, neither with a memory. -/
def Parallel.relaid {ts us : List Token} (h : SameLayout ts us) (hend : EndMarked ts)
    (hend' : EndMarked us) (hts : ts.Pairwise fun t u => t.position.Before u.position) :
    Parallel where
  Abreast _ c d := c.Within ts ∧ d.Within us ∧ d.index = c.index
  Recalls m m' := m = none ∧ m' = none
  place := relocate ts us
  place' := id
  Blames e e' := ∃ i t u, ts[i]? = some t ∧ us[i]? = some u ∧ e' = ⟨e.fault, u.position⟩ ∧
    e.position = t.position
  Whole _ := True
  whole_succ _ := trivial
  nonempty hcd := hcd.1.nonempty
  kind hcd := .inl (h.kind hcd.1 hcd.2.1 hcd.2.2)
  assigns hcd _ := by rw [h.secondKind? hcd.1 hcd.2.1 hcd.2.2]
  sign hcd hsign := by
    refine h.atCoordinateSign hcd.1 hcd.2.1 hcd.2.2 ?_
    rcases hsign with hk | hk <;> rw [hk] <;> rfl
  placed hcd _ := (relocate_eq hts hcd.1.token (hcd.2.2 ▸ hcd.2.1.token)).symm
  unwanted wanted hcd :=
    ⟨_, _, _, hcd.1.token, hcd.2.2 ▸ hcd.2.1.token, by rw [h.kind hcd.1 hcd.2.1 hcd.2.2], rfl⟩
  lacking wanted hcd :=
    ⟨_, _, _, hcd.1.token, hcd.2.2 ▸ hcd.2.1.token, by rw [h.kind hcd.1 hcd.2.1 hcd.2.2], rfl⟩
  opens hcd hk := h.advance hcd.1 hcd.2.1 hcd.2.2 hend hend' (Kind.ne_eof_of_turn hk nofun)
  closes hcd hk := h.advance hcd.1 hcd.2.1 hcd.2.2 hend hend' (Kind.ne_eof_of_turn hk nofun)
  stays hcd hk := h.advance hcd.1 hcd.2.1 hcd.2.2 hend hend' (Kind.ne_eof_of_turn hk nofun)
  shorter hcd hk := (hcd.1.advance hend hk).2

/-- **Parsing lists of the same layout** gives the same tree with its places relocated, or the same
fault at the same token. -/
theorem parse_relaid {ts us : List Token} (h : SameLayout ts us) (hend : EndMarked ts)
    (hend' : EndMarked us) (hts : ts.Pairwise fun t u => t.position.Before u.position) :
    (∃ e, Expr.parse ts = .ok e ∧ Expr.parse us = .ok (e.placed (relocate ts us))) ∨
    ∃ (fault : SyntaxFault) (i : Nat) (t u : Token), ts[i]? = some t ∧ us[i]? = some u ∧
      Expr.parse ts = .error ⟨fault, t.position⟩ ∧ Expr.parse us = .error ⟨fault, u.position⟩ := by
  have hne : ts ≠ [] := by
    rintro rfl
    obtain ⟨e, hlast, -⟩ := hend
    cases hlast
  have hne' : us ≠ [] := by
    rintro rfl
    obtain ⟨e, hlast, -⟩ := hend'
    cases hlast
  have hcd : (Parallel.relaid h hend hend' hts).Abreast 0 (.start ts) (.start us) :=
    ⟨Cursor.within_start hne, Cursor.within_start hne', rfl⟩
  have hlength : us.length = ts.length := by simpa using congrArg List.length h.kinds
  have hagree := Parallel.agree_program (Parallel.ready_plain fun _ _ => Iff.rfl) trivial hcd
    (Nat.le_succ ts.length) (Nat.le_succ ts.length) none none ⟨rfl, rfl⟩
  rw [parse_eq_parseWith_none hend, parse_eq_parseWith_none hend', Expr.parseWith, Expr.parseWith,
    hlength]
  generalize program (ts.length + 1) (.start ts) none = r at hagree ⊢
  generalize program (ts.length + 1) (.start us) none = s at hagree ⊢
  cases hagree with
  | ok hsame =>
    obtain rfl := (Expr.placed_id _).symm.trans hsame
    exact .inl ⟨_, rfl, rfl⟩
  | error hblames =>
    obtain ⟨i, t, u, ht, hu, rfl, hposition⟩ := hblames
    refine .inr ⟨_, i, t, u, ht, hu, ?_, rfl⟩
    rw [← hposition]

/-! ## Two texts -/

/-- The texts, which consist of the given tokens, give the same tree up to places, or fail with the
same fault at the same token. -/
def ParsesAlike (source source' : String) (ts us : List Token) : Prop :=
  (∃ e e', parse source = .ok e ∧ parse source' = .ok e' ∧ e'.unplaced = e.unplaced) ∨
  ∃ (fault : SyntaxFault) (i : Nat) (t u : Token), ts[i]? = some t ∧ us[i]? = some u ∧
    parse source = .error ⟨fault, t.position⟩ ∧ parse source' = .error ⟨fault, u.position⟩

theorem parse_of_scan {source : String} {ts : List Token} (h : Lexer.scan source = .ok ts) :
    parse source = Expr.parse ts := by
  rw [parse, h]
  rfl

theorem SameLayout.parsesAlike {source source' : String} {ts us : List Token}
    (hs : Lexer.scan source = .ok ts) (hs' : Lexer.scan source' = .ok us) (h : SameLayout ts us) :
    ParsesAlike source source' ts us := by
  obtain ⟨gaps, hspaced⟩ := Lexer.scan_eq_ok_iff.1 hs
  rw [ParsesAlike, parse_of_scan hs, parse_of_scan hs']
  rcases parse_relaid h (Lexer.endMarked_of_scan hs) (Lexer.endMarked_of_scan hs')
      hspaced.increasing with ⟨e, he, he'⟩ | hfails
  · exact .inl ⟨e, _, he, he', Expr.unplaced_placed _ e⟩
  · exact .inr hfails

/-- Next to a sign in front of a number, there is a gap between two tokens in both texts or in
neither. -/
def SameGaps (ts : List Token) (gaps gaps' : List (List Char)) : Prop :=
  ∀ i sign number, ts[i]? = some sign → ts[i + 1]? = some number → sign.kind.isSign = true →
    number.kind.isNumber = true → (gaps'[i + 1]? = some [] ↔ gaps[i + 1]? = some []) ∧
      (0 < i → (gaps'[i]? = some [] ↔ gaps[i]? = some []))

namespace Lexer.Spaced

variable {p p' : Position} {cs cs' : List Char} {gaps gaps' : List (List Char)}
  {ts us : List Token}

/-- Neighbours touch in both texts if gaps are empty in both. -/
theorem touches_eq (h : Spaced p cs gaps ts) (h' : Spaced p' cs' gaps' us) {i : Nat}
    {t u t' u' : Token} (ht : ts[i]? = some t) (hu : ts[i + 1]? = some u) (ht' : us[i]? = some t')
    (hu' : us[i + 1]? = some u') (hgap : gaps'[i + 1]? = some [] ↔ gaps[i + 1]? = some []) :
    t'.touches u' = t.touches u := by
  have hlt : i + 1 < gaps.length := h.length_eq ▸ (List.getElem?_eq_some_iff.1 hu).1
  have hlt' : i + 1 < gaps'.length := h'.length_eq ▸ (List.getElem?_eq_some_iff.1 hu').1
  rw [h.touches_iff ht hu (List.getElem?_eq_getElem hlt),
    h'.touches_iff ht' hu' (List.getElem?_eq_getElem hlt'), Bool.eq_iff_iff, List.isEmpty_iff,
    List.isEmpty_iff]
  simpa [List.getElem?_eq_getElem, hlt, hlt'] using hgap

/-- Texts with the same kinds of tokens and the same gaps next to signs have the same layout. -/
theorem sameLayout (h : Spaced p cs gaps ts) (h' : Spaced p' cs' gaps' us)
    (hkinds : us.map Token.kind = ts.map Token.kind) (hgaps : SameGaps ts gaps gaps') :
    SameLayout ts us where
  kinds := hkinds
  signs i := by
    have hkind : ∀ k : Nat, us[k]?.map Token.kind = ts[k]?.map Token.kind := by
      intro k
      rw [← List.getElem?_map, ← List.getElem?_map, hkinds]
    have hsign := hkind i
    have hnumber := hkind (i + 1)
    unfold signLayout
    cases ht : ts[i]? with
    | none =>
      have ht' : us[i]? = none := by simpa [ht] using hsign
      rw [ht']
    | some t =>
    obtain ⟨t', ht', heq⟩ : ∃ t', us[i]? = some t' ∧ t'.kind = t.kind := by simpa [ht] using hsign
    cases hu : ts[i + 1]? with
    | none =>
      have hu' : us[i + 1]? = none := by simpa [hu] using hnumber
      rw [ht', hu']
    | some u =>
    obtain ⟨u', hu', heq'⟩ : ∃ u', us[i + 1]? = some u' ∧ u'.kind = u.kind := by
      simpa [hu] using hnumber
    simp only [ht', hu', heq, heq']
    split
    · next hkinds =>
      obtain ⟨hs, hn⟩ := Bool.and_eq_true_iff.1 hkinds
      obtain ⟨hbehind, hbefore⟩ := hgaps i t u ht hu hs hn
      rw [touches_eq h h' ht hu ht' hu' hbehind]
      congr 2
      cases i with
      | zero => rfl
      | succ k =>
        have hprevious := hkind k
        have hlt : k < ts.length := Nat.lt_of_succ_lt (List.getElem?_eq_some_iff.1 ht).1
        have hlt' : k < us.length := Nat.lt_of_succ_lt (List.getElem?_eq_some_iff.1 ht').1
        have hb := List.getElem?_eq_getElem hlt
        have hb' := List.getElem?_eq_getElem hlt'
        simp only [List.getLast?_take, Nat.add_one_ne_zero, if_false, Nat.add_sub_cancel, hb, hb',
          Option.some_or, Option.map_some]
        rw [touches_eq h h' hb ht hb' ht' (hbefore (Nat.succ_pos k))]
    · rfl

end Lexer.Spaced

/-- **Layout matters only next to signs.** If the tokens of two texts have the same kinds, and signs
in front of numbers stand alike, then the texts are parsed alike. Signs stand alike in particular if
there are gaps next to them in both texts or in neither; other gaps may be added or removed. -/
theorem layout_irrelevant {source source' : String} {ts us : List Token}
    (hs : Lexer.scan source = .ok ts) (hs' : Lexer.scan source' = .ok us)
    (hkinds : us.map Token.kind = ts.map Token.kind) :
    ((∀ i, signLayout us i = signLayout ts i) → ParsesAlike source source' ts us) ∧
    ∀ gaps gaps', Lexer.Spaced .start source.toList gaps ts →
      Lexer.Spaced .start source'.toList gaps' us → SameGaps ts gaps gaps' →
      ParsesAlike source source' ts us :=
  ⟨fun hsigns => SameLayout.parsesAlike hs hs' ⟨hkinds, hsigns⟩,
    fun _ _ h h' hgaps => (h.sameLayout h' hkinds hgaps).parsesAlike hs hs'⟩

/-- The tokens of `(1 -2)`. -/
def tightPair : List Token :=
  [⟨.symbol .lparen, ⟨1, 1⟩, 1⟩, ⟨.number 1, ⟨1, 2⟩, 1⟩, ⟨.symbol .minus, ⟨1, 4⟩, 1⟩,
    ⟨.number 2, ⟨1, 5⟩, 1⟩, ⟨.symbol .rparen, ⟨1, 6⟩, 1⟩, ⟨.eof, ⟨1, 7⟩, 0⟩]

/-- The tokens of the same text with other gaps, one of them a comment. -/
def loosePair : List Token :=
  [⟨.symbol .lparen, ⟨1, 1⟩, 1⟩, ⟨.number 1, ⟨1, 3⟩, 1⟩, ⟨.symbol .minus, ⟨2, 2⟩, 1⟩,
    ⟨.number 2, ⟨2, 3⟩, 1⟩, ⟨.symbol .rparen, ⟨2, 5⟩, 1⟩, ⟨.eof, ⟨2, 6⟩, 0⟩]

theorem scan_tightPair : Lexer.scan "(1 -2)" = .ok tightPair :=
  (Lexer.scanFrom_step rfl rfl []).trans <| (Lexer.scanFrom_step rfl rfl _).trans <|
    (Lexer.scanFrom_step rfl rfl _).trans <| (Lexer.scanFrom_step rfl rfl _).trans <|
      (Lexer.scanFrom_step rfl rfl _).trans (Lexer.scanFrom_nil _ _)

theorem scan_loosePair : Lexer.scan "( 1# c\n -2 )" = .ok loosePair :=
  (Lexer.scanFrom_step rfl rfl []).trans <| (Lexer.scanFrom_step rfl rfl _).trans <|
    (Lexer.scanFrom_step rfl rfl _).trans <| (Lexer.scanFrom_step rfl rfl _).trans <|
      (Lexer.scanFrom_step rfl rfl _).trans (Lexer.scanFrom_nil _ _)

/-- The minus sign touches the number behind it and not the one before it, in both texts. -/
theorem signLayout_loosePair (i : Nat) : signLayout loosePair i = signLayout tightPair i :=
  match i with
  | 0 | 1 | 2 | 3 | 4 | 5 => rfl
  | _ + 6 => rfl

theorem layout_irrelevant_pair :
    loosePair.map Token.kind = tightPair.map Token.kind ∧
      ParsesAlike "(1 -2)" "( 1# c\n -2 )" tightPair loosePair :=
  ⟨rfl, (layout_irrelevant scan_tightPair scan_loosePair rfl).1 signLayout_loosePair⟩

end GeoScript
