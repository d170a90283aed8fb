import GeoScript.Proofs.Numerals

/-!
# Spelling tokens

Every token that a text can hold has a text of its own (`Token.Kind.source`), which is taken whole
where a word or number may end. In front of a blank this holds for all of them
(`scans_source`): for numbers without a sign, for names that are no reserved words, and for the
reserved words and symbols.
-/

namespace GeoScript

open Token (Kind)
open Lexer (Piece Ends BlankNext)

/-- The text of a token of the given kind. -/
def Token.Kind.source : Kind → List Char
  | .number x => (Decimal.text x).toList
  | .bool b => (boolText b).toList
  | .ident name => name.toList
  | .geometry k => k.keyword.toList
  | .word w => w.text.toList
  | .symbol s => s.text.toList
  | .eof => []

/-- A token as it is written where it is marked. -/
def Mark.piece (m : Mark) : Piece := ⟨m.glued, m.kind, m.kind.source⟩

theorem Mark.map_mark_map_piece (ms : List Mark) : (ms.map Mark.piece).map Piece.mark = ms := by
  rw [List.map_map]
  exact List.map_id ms

/-! ## Words and numbers -/

theorem scans_size {x : Float} (hx : x.isFinite = true) (glued : Bool) {rest : List Char}
    (hr : Ends rest) : (Mark.piece ⟨glued, .number x.abs⟩).Scans rest := by
  obtain ⟨n, htext, hread⟩ := Decimal.read?_text hx
  have hscans := Lexer.scans_number n.nonempty n.isDigit_whole n.isDigit_fraction hr hread glued
  have hpiece : Mark.piece ⟨glued, .number x.abs⟩ = ⟨glued, .number x.abs, n.text⟩ := by
    rw [Mark.piece, Token.Kind.source, htext]
  rw [hpiece]
  exact hscans

theorem scans_keyword (kind : Geometry.Kind) (glued : Bool) {rest : List Char}
    (hr : Ends rest) :
    (Mark.piece ⟨glued, .geometry kind⟩).Scans rest := by
  have hword : Kind.ofWord (String.ofList kind.keyword.toList) = .geometry kind := by
    cases kind <;> decide +kernel
  have hletters : kind.keyword.toList.all Lexer.isLetter = true := by
    cases kind <;> decide +kernel
  have hscans : (⟨glued, .ofWord (String.ofList kind.keyword.toList), kind.keyword.toList⟩ :
      Piece).Scans rest :=
    Lexer.scans_word (by cases kind <;> decide) (List.all_eq_true.1 hletters) hr glued
  rw [hword] at hscans
  exact hscans

theorem scans_reserved (w : Word) (glued : Bool) {rest : List Char} (hr : Ends rest) :
    (Mark.piece ⟨glued, .word w⟩).Scans rest := by
  have hword : Kind.ofWord (String.ofList w.text.toList) = .word w := by
    cases w <;> decide +kernel
  have hletters : w.text.toList.all Lexer.isLetter = true := by
    cases w <;> decide +kernel
  have hscans : (⟨glued, .ofWord (String.ofList w.text.toList), w.text.toList⟩ :
      Piece).Scans rest :=
    Lexer.scans_word (by cases w <;> decide) (List.all_eq_true.1 hletters) hr glued
  rw [hword] at hscans
  exact hscans

theorem scans_bool (b : Bool) (glued : Bool) {rest : List Char} (hr : Ends rest) :
    (Mark.piece ⟨glued, .bool b⟩).Scans rest := by
  have hword : Kind.ofWord (String.ofList (Kind.boolText b).toList) = .bool b := by
    cases b <;> decide +kernel
  have hletters : (Kind.boolText b).toList.all Lexer.isLetter = true := by
    cases b <;> decide +kernel
  have hscans : (⟨glued, .ofWord (String.ofList (Kind.boolText b).toList),
      (Kind.boolText b).toList⟩ : Piece).Scans rest :=
    Lexer.scans_word (by cases b <;> decide) (List.all_eq_true.1 hletters) hr glued
  rw [hword] at hscans
  exact hscans

/-- Whether a word is an identifier: it has the form of one, and it is not reserved. -/
def isName (name : String) : Bool :=
  Kind.ofWord name = .ident name &&
    match name.toList with
    | c :: cs => Lexer.isIdentStart c && cs.all Lexer.isIdentPart
    | [] => false

theorem scans_name {name : String} (h : isName name = true) (glued : Bool) {rest : List Char}
    (hr : Ends rest) : (Mark.piece ⟨glued, .ident name⟩).Scans rest := by
  simp only [isName, Bool.and_eq_true, decide_eq_true_eq] at h
  obtain ⟨hword, hform⟩ := h
  split at hform
  · next c cs hchars =>
    rw [Bool.and_eq_true, List.all_eq_true] at hform
    have hscans := Lexer.scans_ident hform.1 hform.2 hr glued
    rw [← hchars, String.ofList_toList, hword] at hscans
    exact hscans
  · cases hform

/-! ## Tokens in front of a blank -/

/-- Whether a token of this kind can be written. -/
def Token.Kind.isWritten : Kind → Bool
  | .number x => x.isFinite && !Decimal.isSigned x
  | .ident name => isName name
  | .eof => false
  | .bool _ | .geometry _ | .word _ | .symbol _ => true

/-- **A token is taken whole in front of a blank.** -/
theorem scans_source {k : Kind} (hk : k.isWritten = true) (glued : Bool) {rest : List Char}
    (hr : BlankNext rest) : (Mark.piece ⟨glued, k⟩).Scans rest := by
  cases k with
  | number x =>
    simp only [Kind.isWritten, Bool.and_eq_true, Bool.not_eq_true'] at hk
    have habs := Decimal.signed_abs hk.1
    rw [hk.2] at habs
    have hscans := scans_size hk.1 glued hr.ends
    rwa [show x.abs = x from habs] at hscans
  | bool b => exact scans_bool b glued hr.ends
  | ident name => exact scans_name hk glued hr.ends
  | geometry kind => exact scans_keyword kind glued hr.ends
  | word w => exact scans_reserved w glued hr.ends
  | symbol s => exact Lexer.scans_symbol_blank s glued hr
  | eof => cases hk

end GeoScript
