import GeoScript.Proofs.Forms
import GeoScript.Proofs.Pairs
import GeoScript.Proofs.Spelling

/-!
# Printing programs

**Form.** An expression is printed with every operand in parentheses of its own, and so are targets
of accessors, conditions, expressions in coordinate lists, and coordinates that are not written out
as numbers (`Expr.marks`). Bodies of functions stand in braces, items are divided by semicolons.

**Layout.** A blank stands between any two tokens but the sign of a coordinate and its digits
(`Expr.script`).

**Theorem (`scan_script`).** If the names are no reserved words and the numbers are finite, then
scanning the text of an expression gives its marks back.
-/

namespace GeoScript

open Token (Kind)
open TokenReader (itemMarks)

/-! ## Marks -/

/-- Marks in parentheses. -/
def parens (ms : List Mark) : List Mark :=
  ⟨false, .symbol .lparen⟩ :: (ms ++ [⟨false, .symbol .rparen⟩])

/-- Items in parentheses, divided by commas. -/
def commaList (items : List (List Mark)) : List Mark :=
  ⟨false, .symbol .lparen⟩ :: itemMarks false items

/-- Items divided by semicolons. -/
def semicolonList : List (List Mark) → List Mark
  | [] => []
  | [ms] => ms
  | ms :: rest => ms ++ ⟨false, .symbol .semicolon⟩ :: semicolonList rest

/-- The token of an operator. -/
def BinaryOp.kind : BinaryOp → Kind
  | .logic .and => .word .andWord
  | .logic .or => .word .orWord
  | .equality false => .symbol .equalEqual
  | .equality true => .symbol .bangEqual
  | .compare op => .symbol op.symbol
  | .pipe kind => .symbol kind.symbol
  | .concat => .symbol .plusPlus
  | .arith op => .symbol op.symbol

def nameMarks (name : String) : List Mark := [⟨false, .ident name⟩]

/-- A coordinate whose marks are given: a number stands alone. -/
def coordinateMarks (e : Expr) (ms : List Mark) : List Mark :=
  match e with
  | .number .. => ms
  | _ => parens ms

/-- A branch whose marks are given: of a point, the name is left out. -/
def branchMarks (e : Expr) (ms : List Mark) : List Mark :=
  match e with
  | .seq .. => parens ms
  | _ => ms.tail

mutual

/-- The tokens of an expression. -/
def Expr.marks : Expr → List Mark
  | .number x _ => numberMarks x
  | .bool b _ => [⟨false, .bool b⟩]
  | .ident name _ => nameMarks name
  | .typeTag kind _ => [⟨false, .geometry kind⟩]
  | .decl name value _ => ⟨false, .ident name⟩ :: ⟨false, .symbol .equal⟩ :: value.marks
  | .seq items _ => semicolonList (Expr.marksAll items)
  | .geometry kind body _ => ⟨false, .geometry kind⟩ :: body.marks
  | .function params body _ =>
    ⟨false, .word .function⟩ :: ⟨false, .symbol .lparen⟩ :: (commaList (params.map nameMarks) ++
      ⟨false, .symbol .arrow⟩ :: ⟨false, .symbol .lbrace⟩ :: (body.marks ++
        [⟨false, .symbol .rbrace⟩, ⟨false, .symbol .rparen⟩]))
  | .call callee args => callee.marks ++ commaList (Expr.marksAll args)
  | .access target property args =>
    parens target.marks ++ ⟨false, .symbol .colon⟩ :: ⟨false, .ident property⟩ ::
      commaList (Expr.marksAll args)
  | .binary op left right => parens left.marks ++ ⟨false, op.kind⟩ :: parens right.marks
  | .generate count body _ =>
    ⟨false, .word .generate⟩ :: (parens count.marks ++ parens body.marks)
  | .cond condition thenBranch elseBranch _ =>
    ⟨false, .word .ifWord⟩ :: (parens condition.marks ++
      ⟨false, .word .thenWord⟩ :: (branchMarks thenBranch thenBranch.marks ++
        ⟨false, .word .elseWord⟩ :: branchMarks elseBranch elseBranch.marks))
  | .not operand _ => ⟨false, .symbol .bang⟩ :: parens operand.marks
  | .neg operand _ => ⟨false, .symbol .minus⟩ :: parens operand.marks

def Expr.marksAll : List Expr → List (List Mark)
  | [] => []
  | e :: es => e.marks :: Expr.marksAll es

def Element.marks : Element → List Mark
  | .pair x y => coordinateMarks x x.marks ++ coordinateMarks y y.marks
  | .value e => parens e.marks

def Element.marksAll : List Element → List (List Mark)
  | [] => []
  | e :: es => e.marks :: Element.marksAll es

def Element.marksRings : List (List Element) → List (List Mark)
  | [] => []
  | r :: rs => commaList (Element.marksAll r) :: Element.marksRings rs

def Element.marksPolygons : List (List (List Element)) → List (List Mark)
  | [] => []
  | p :: ps => commaList (Element.marksRings p) :: Element.marksPolygons ps

/-- What is printed behind the name of a shape. -/
def Body.marks : Body → List Mark
  | .empty => nameMarks "EMPTY"
  | .point x y => parens (coordinateMarks x x.marks ++ coordinateMarks y y.marks)
  | .elements items => commaList (Element.marksAll items)
  | .rings rings => commaList (Element.marksRings rings)
  | .polygons polygons => commaList (Element.marksPolygons polygons)

end

@[simp] theorem Expr.marksAll_eq (es : List Expr) : marksAll es = es.map marks := by
  induction es with
  | nil => rw [marksAll, List.map_nil]
  | cons e es ih => rw [marksAll, List.map_cons, ih]

@[simp] theorem Element.marksAll_eq (es : List Element) : marksAll es = es.map marks := by
  induction es with
  | nil => rw [marksAll, List.map_nil]
  | cons e es ih => rw [marksAll, List.map_cons, ih]

/-- The marks of a list of entries. -/
def ringMarks (r : List Element) : List Mark := commaList (r.map Element.marks)

@[simp] theorem Element.marksRings_eq (rs : List (List Element)) :
    marksRings rs = rs.map ringMarks := by
  induction rs with
  | nil => rw [marksRings, List.map_nil]
  | cons r rs ih => rw [marksRings, List.map_cons, ih, marksAll_eq, ringMarks]

@[simp] theorem Element.marksPolygons_eq (ps : List (List (List Element))) :
    marksPolygons ps = ps.map fun p => commaList (p.map ringMarks) := by
  induction ps with
  | nil => rw [marksPolygons, List.map_nil]
  | cons p ps ih => rw [marksPolygons, List.map_cons, ih, marksRings_eq]

/-- **The text of an expression.** -/
def Expr.script (e : Expr) : String :=
  String.ofList (Lexer.written .spread none (e.marks.map Mark.piece))

/-- The names and numbers that can be written: names are identifiers, numbers are finite, and only
coordinates have a sign. -/
def Vocabulary.written : Vocabulary where
  name := isName
  literal x := x.isFinite && !Decimal.isSigned x
  coordinate x := x.isFinite

/-! ## Scanning -/

/-- Tokens that can be written, with blanks between them but for signs and their digits. -/
inductive Loose : List Mark → Prop
  | nil : Loose []
  | cons {k : Kind} {ms : List Mark} : k.isWritten = true → Loose ms → Loose (⟨false, k⟩ :: ms)
  | signed {x : Float} {ms : List Mark} : x.isFinite = true → Loose ms →
    Loose (⟨false, .symbol .minus⟩ :: ⟨true, .number x.abs⟩ :: ms)

theorem Loose.blankNext {ms : List Mark} (h : Loose ms) (k : Kind) :
    Lexer.BlankNext (Lexer.written .spread (some k) (ms.map Mark.piece)) := by
  intro c hc
  cases h with
  | nil => cases hc
  | cons _ _ => exact (Option.some.inj hc).symm
  | signed _ _ => exact (Option.some.inj hc).symm

theorem Loose.scansAll {ms : List Mark} (h : Loose ms) :
    Lexer.ScansAll .spread (ms.map Mark.piece) [] := by
  induction h with
  | nil => trivial
  | @cons k ms hk hms ih =>
    refine ⟨?_, ih⟩
    rw [List.append_nil]
    exact scans_source hk false (hms.blankNext k)
  | @signed x ms hx hms ih =>
    refine ⟨Lexer.scans_symbol (by simp) false _, ?_, ih⟩
    rw [List.append_nil]
    exact scans_size hx true (hms.blankNext (.number x.abs)).ends

theorem Loose.append {ms ns : List Mark} (hm : Loose ms) (hn : Loose ns) : Loose (ms ++ ns) := by
  induction hm with
  | nil => exact hn
  | cons hk _ ih => exact .cons hk ih
  | signed hx _ ih => exact .signed hx ih

theorem Loose.tail {ms : List Mark} {k : Kind} (h : Loose (⟨false, k⟩ :: ms))
    (hk : k ≠ .symbol .minus) : Loose ms := by
  cases h with
  | cons _ hms => exact hms
  | signed _ _ => exact absurd rfl hk

theorem Loose.parens {ms : List Mark} (h : Loose ms) : Loose (parens ms) :=
  .cons rfl (h.append (.cons rfl .nil))

theorem loose_commaList {items : List (List Mark)} (h : ∀ ms ∈ items, Loose ms) :
    Loose (commaList items) := by
  refine .cons rfl ?_
  induction items with
  | nil => exact .cons rfl .nil
  | cons ms items ih =>
    have hms := h ms List.mem_cons_self
    have hrest := ih fun ns hns => h ns (List.mem_cons_of_mem _ hns)
    cases items with
    | nil => exact hms.append (.cons rfl .nil)
    | cons ns items => exact hms.append (.cons rfl hrest)

theorem loose_semicolonList {items : List (List Mark)} (h : ∀ ms ∈ items, Loose ms) :
    Loose (semicolonList items) := by
  induction items with
  | nil => exact .nil
  | cons ms items ih =>
    have hms := h ms List.mem_cons_self
    have hrest := ih fun ns hns => h ns (List.mem_cons_of_mem _ hns)
    cases items with
    | nil => exact hms
    | cons ns items => exact hms.append (.cons rfl hrest)

theorem loose_numberMarks {x : Float} (hx : x.isFinite = true) : Loose (numberMarks x) := by
  unfold numberMarks
  cases hsign : Decimal.isSigned x with
  | true => exact .signed hx .nil
  | false =>
    have habs := Decimal.signed_abs hx
    rw [hsign] at habs
    rw [show x.abs = x from habs]
    exact .cons (by simp [Kind.isWritten, hx, hsign]) .nil

theorem loose_coordinateMarks {e : Expr} (h : Loose e.marks) :
    Loose (coordinateMarks e e.marks) := by
  unfold coordinateMarks
  split
  · exact h
  · exact h.parens

theorem loose_branchMarks {e : Expr} (hfits : e.fits .written .branch = true)
    (h : Loose e.marks) : Loose (branchMarks e e.marks) := by
  cases e with
  | seq items p => exact h.parens
  | geometry kind body p =>
    rw [Expr.marks] at h ⊢
    exact h.tail nofun
  | _ => simp [Expr.fits] at hfits

theorem loose_names {names : List String} (h : names.all isName = true) :
    ∀ ms ∈ names.map nameMarks, Loose ms := by
  intro ms hms
  obtain ⟨name, hname, rfl⟩ := List.mem_map.1 hms
  exact .cons (List.all_eq_true.1 h name hname) .nil

theorem BinaryOp.isWritten_kind (op : BinaryOp) : op.kind.isWritten = true := by
  unfold BinaryOp.kind
  split <;> rfl

mutual

theorem Expr.loose_marks :
    ∀ (e : Expr) (role : Role), e.fits .written role = true → Loose e.marks
  | .number x _, role, h => by
    simp only [Expr.fits, Bool.and_eq_true] at h
    have hfinite : x.isFinite = true := by
      by_cases hrole : role = .coordinate
      · simpa [hrole, Vocabulary.written] using h.2
      · have hliteral := h.2
        rw [if_neg hrole] at hliteral
        exact (Bool.and_eq_true _ _ ▸ hliteral).1
    rw [Expr.marks]
    exact loose_numberMarks hfinite
  | .bool b _, _, _ => by
    rw [Expr.marks]
    exact .cons rfl .nil
  | .ident name _, _, h => by
    simp only [Expr.fits, Bool.and_eq_true] at h
    rw [Expr.marks]
    exact .cons h.2 .nil
  | .typeTag kind _, _, _ => by
    rw [Expr.marks]
    exact .cons rfl .nil
  | .decl name value _, _, h => by
    simp only [Expr.fits, Bool.and_eq_true] at h
    rw [Expr.marks]
    exact .cons h.1.2 (.cons rfl (Expr.loose_marks value .operand h.2))
  | .seq items _, _, h => by
    simp only [Expr.fits, Bool.and_eq_true] at h
    rw [Expr.marks]
    exact loose_semicolonList (Expr.loose_marksAll items .item h.2)
  | .geometry kind body _, _, h => by
    simp only [Expr.fits, Bool.and_eq_true] at h
    rw [Expr.marks]
    exact .cons rfl (Body.loose_marks body kind h.2)
  | .function params body _, _, h => by
    simp only [Expr.fits, Bool.and_eq_true] at h
    have hbody := Expr.loose_marks body .body h.2
    rw [Expr.marks]
    refine .cons rfl (.cons rfl ((loose_commaList (loose_names h.1.2)).append ?_))
    exact .cons rfl (.cons rfl (hbody.append (.cons rfl (.cons rfl .nil))))
  | .call callee args, _, h => by
    simp only [Expr.fits, Bool.and_eq_true] at h
    have hcallee := Expr.loose_marks callee .operand h.1.2
    rw [Expr.marks]
    exact hcallee.append (loose_commaList (Expr.loose_marksAll args .operand h.2))
  | .access target property args, _, h => by
    simp only [Expr.fits, Bool.and_eq_true] at h
    have htarget := Expr.loose_marks target .operand h.1.1.2
    have hargs := loose_commaList (Expr.loose_marksAll args .operand h.2)
    rw [Expr.marks]
    exact htarget.parens.append (.cons rfl (.cons h.1.2 hargs))
  | .binary op left right, _, h => by
    simp only [Expr.fits, Bool.and_eq_true] at h
    have hleft := Expr.loose_marks left .operand h.1.2
    have hright := Expr.loose_marks right .operand h.2
    rw [Expr.marks]
    exact hleft.parens.append (.cons op.isWritten_kind hright.parens)
  | .generate count body _, _, h => by
    simp only [Expr.fits, Bool.and_eq_true] at h
    have hcount := Expr.loose_marks count .operand h.1.2
    have hbody := Expr.loose_marks body .operand h.2
    rw [Expr.marks]
    exact .cons rfl (hcount.parens.append hbody.parens)
  | .cond condition thenBranch elseBranch _, _, h => by
    simp only [Expr.fits, Bool.and_eq_true] at h
    have hcondition := Expr.loose_marks condition .operand h.1.1.2
    have hthen := loose_branchMarks h.1.2 (Expr.loose_marks thenBranch .branch h.1.2)
    have helse := loose_branchMarks h.2 (Expr.loose_marks elseBranch .branch h.2)
    rw [Expr.marks]
    exact .cons rfl (hcondition.parens.append (.cons rfl (hthen.append (.cons rfl helse))))
  | .not operand _, _, h => by
    simp only [Expr.fits, Bool.and_eq_true] at h
    rw [Expr.marks]
    exact .cons rfl (Expr.loose_marks operand .operand h.2).parens
  | .neg operand _, _, h => by
    simp only [Expr.fits, Bool.and_eq_true] at h
    rw [Expr.marks]
    exact .cons rfl (Expr.loose_marks operand .operand h.2).parens

theorem Expr.loose_marksAll : ∀ (es : List Expr) (role : Role),
    Expr.fitAll .written role es = true → ∀ ms ∈ Expr.marksAll es, Loose ms
  | [], _, _ => by simp
  | e :: es, role, h => by
    simp only [Expr.fitAll, Bool.and_eq_true] at h
    rw [Expr.marksAll, List.forall_mem_cons]
    exact ⟨Expr.loose_marks e role h.1, Expr.loose_marksAll es role h.2⟩

theorem Element.loose_marks : ∀ e : Element, e.fits .written = true → Loose e.marks
  | .pair x y, h => by
    simp only [Element.fits, Bool.and_eq_true] at h
    rw [Element.marks]
    exact (loose_coordinateMarks (Expr.loose_marks x .coordinate h.1)).append
      (loose_coordinateMarks (Expr.loose_marks y .coordinate h.2))
  | .value e, h => by
    rw [Element.fits] at h
    rw [Element.marks]
    exact (Expr.loose_marks e .operand h).parens

theorem Element.loose_marksAll : ∀ es : List Element, Element.fitAll .written es = true →
    ∀ ms ∈ Element.marksAll es, Loose ms
  | [], _ => by simp
  | e :: es, h => by
    simp only [Element.fitAll, Bool.and_eq_true] at h
    rw [Element.marksAll, List.forall_mem_cons]
    exact ⟨Element.loose_marks e h.1, Element.loose_marksAll es h.2⟩

theorem Element.loose_marksRings : ∀ rs : List (List Element),
    Element.fitRings .written rs = true → ∀ ms ∈ Element.marksRings rs, Loose ms
  | [], _ => by simp
  | r :: rs, h => by
    simp only [Element.fitRings, Bool.and_eq_true] at h
    rw [Element.marksRings, List.forall_mem_cons]
    exact ⟨loose_commaList (Element.loose_marksAll r h.1.2), Element.loose_marksRings rs h.2⟩

theorem Element.loose_marksPolygons : ∀ ps : List (List (List Element)),
    Element.fitPolygons .written ps = true → ∀ ms ∈ Element.marksPolygons ps, Loose ms
  | [], _ => by simp
  | p :: ps, h => by
    simp only [Element.fitPolygons, Bool.and_eq_true] at h
    rw [Element.marksPolygons, List.forall_mem_cons]
    exact ⟨loose_commaList (Element.loose_marksRings p h.1.2), Element.loose_marksPolygons ps h.2⟩

theorem Body.loose_marks :
    ∀ (b : Body) (kind : Geometry.Kind), b.fits .written kind = true → Loose b.marks
  | .empty, _, _ => by
    rw [Body.marks]
    exact .cons (by decide +kernel) .nil
  | .point x y, _, h => by
    simp only [Body.fits, Bool.and_eq_true] at h
    have hx := loose_coordinateMarks (Expr.loose_marks x .coordinate h.1.2)
    have hy := loose_coordinateMarks (Expr.loose_marks y .coordinate h.2)
    rw [Body.marks]
    exact (hx.append hy).parens
  | .elements items, _, h => by
    simp only [Body.fits, Bool.and_eq_true] at h
    rw [Body.marks]
    exact loose_commaList (Element.loose_marksAll items h.2)
  | .rings rings, _, h => by
    simp only [Body.fits, Bool.and_eq_true] at h
    rw [Body.marks]
    exact loose_commaList (Element.loose_marksRings rings h.2)
  | .polygons polygons, _, h => by
    simp only [Body.fits, Bool.and_eq_true] at h
    rw [Body.marks]
    exact loose_commaList (Element.loose_marksPolygons polygons h.2)

end

/-- **Scanning the text of an expression** gives tokens that are marked as they were printed, and an
end mark. -/
theorem scan_script {e : Expr} {role : Role} (h : e.fits .written role = true) :
    ∃ ts t, Lexer.scan e.script = .ok (ts ++ [t]) ∧ Marked none e.marks ts ∧ t.kind = .eof := by
  have hscans := (e.loose_marks role h).scansAll
  have hwritten : e.script.toList = Lexer.written .spread none (e.marks.map Mark.piece) :=
    String.toList_ofList ..
  obtain ⟨ts, t, hscan, hmarked, ht⟩ :=
    Lexer.scan_written Lexer.Layout.parts_spread hscans hwritten
  rw [Mark.map_mark_map_piece] at hmarked
  exact ⟨ts, t, hscan, hmarked, ht⟩

end GeoScript
