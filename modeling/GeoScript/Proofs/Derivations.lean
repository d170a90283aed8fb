import GeoScript.Expr.Parser
import GeoScript.Proofs.Forms

/-!
# Derivations in the grammar

**The grammar** is given by its rules, one constructor of `Derives` each, without saying how a text
is read. A rule relates a nonterminal, the tokens that it stands for and the tree they make; so
`Derives` is the derivations of the grammar together with their trees.

**Operators.** Each level of binary operators groups to the left and has the next tighter level as
its operands, down to powers, which group to the right. Then come signs, accessors, and what is
written in one piece.

**Places.** A rule that makes a node with a place takes the place from its first token. Parentheses
around an expression leave no node and hence no place behind. A sequence without tokens has the
place of the token that closes it.

**Theorem (`Derives.isForm`).** Trees of derivations have the form that is described in
`GeoScript.Proofs.Forms`.
-/

namespace GeoScript

open Token (Kind)

/-- The nonterminals of the grammar. -/
inductive Phrase where
  /-- A sequence, together with the token of the given kind that closes it. A program is a sequence
  that is closed by the end mark. -/
  | sequence (close : Kind)
  /-- Items divided by semicolons, any of which may be left out. -/
  | items
  | item
  | level (l : Level)
  /-- What stands beside the operators of a level. -/
  | operand (l : Level)
  | power
  | unary
  | postfixed
  | primary
  /-- An expression in parentheses. -/
  | group
  /-- A pair in parentheses, which is a point. -/
  | barePoint
  /-- An identifier, perhaps called. -/
  | named
  | geometry
  /-- What stands in parentheses behind the name of a shape. -/
  | body (kind : Geometry.Kind)
  | function
  | params
  | identifier
  | generate
  | condition
  | branch
  | element
  /-- Two coordinates, and up to two more. -/
  | pair
  | coord
  /-- One or more of these, divided by commas. -/
  | series (s : Phrase)
  /-- A series in parentheses. -/
  | list (s : Phrase)
  /-- A series in parentheses, or parentheses with nothing between them. -/
  | listOrNone (s : Phrase)

/-- What the tokens of a nonterminal make. -/
@[reducible] def Phrase.Tree : Phrase → Type
  | .items => List Expr
  | .body _ => Body
  | .params => List String
  | .identifier => String
  | .element => Element
  | .pair => Expr × Expr
  | .series s => List s.Tree
  | .list s => List s.Tree
  | .listOrNone s => List s.Tree
  | _ => Expr

/-- The next tighter level; powers are tighter than all of them. -/
def Level.tighter? : Level → Option Level
  | .or => some .and
  | .and => some .equality
  | .equality => some .comparison
  | .comparison => some .pipeline
  | .pipeline => some .additive
  | .additive => some .multiplicative
  | .multiplicative => none

/-- Any expression is one of the loosest level. -/
abbrev Phrase.expression : Phrase := .level .or

/-- The tokens can be derived from the nonterminal, and the derivation makes the tree. -/
inductive Derives : (s : Phrase) → List Token → s.Tree → Prop
  -- Sequences
  | sequence {close : Kind} {ts : List Token} {t : Token} {es : List Expr} :
    Derives .items ts es → t.kind = close →
    Derives (.sequence close) (ts ++ [t]) (.seq es (ts.headD t).position)
  | noItems : Derives .items [] []
  | lastItem {ts : List Token} {e : Expr} : Derives .item ts e → Derives .items ts [e]
  | emptyItem {t : Token} {ts : List Token} {es : List Expr} : t.kind = .symbol .semicolon →
    Derives .items ts es → Derives .items (t :: ts) es
  | moreItems {ts us : List Token} {t : Token} {e : Expr} {es : List Expr} : Derives .item ts e →
    t.kind = .symbol .semicolon → Derives .items us es → Derives .items (ts ++ t :: us) (e :: es)
  | assignment {t u : Token} {ts : List Token} {name : String} {e : Expr} : t.kind = .ident name →
    u.kind = .symbol .equal → Derives .expression ts e →
    Derives .item (t :: u :: ts) (.decl name e t.position)
  | expressionItem {ts : List Token} {e : Expr} : Derives .expression ts e → Derives .item ts e
  -- Operators
  | tighter {l k : Level} {ts : List Token} {e : Expr} : l.tighter? = some k →
    Derives (.level k) ts e → Derives (.operand l) ts e
  | tightest {l : Level} {ts : List Token} {e : Expr} : l.tighter? = none →
    Derives .power ts e → Derives (.operand l) ts e
  | single {l : Level} {ts : List Token} {e : Expr} : Derives (.operand l) ts e →
    Derives (.level l) ts e
  | binary {l : Level} {ts us : List Token} {t : Token} {op : BinaryOp} {e f : Expr} :
    Derives (.level l) ts e → l.operator? t.kind = some op → Derives (.operand l) us f →
    Derives (.level l) (ts ++ t :: us) (.binary op e f)
  | base {ts : List Token} {e : Expr} : Derives .unary ts e → Derives .power ts e
  | power {ts us : List Token} {t : Token} {e f : Expr} : Derives .unary ts e →
    t.kind = .symbol .caret → Derives .power us f →
    Derives .power (ts ++ t :: us) (.binary (.arith .pow) e f)
  | neg {t : Token} {ts : List Token} {e : Expr} : t.kind = .symbol .minus →
    Derives .unary ts e → Derives .unary (t :: ts) (.neg e t.position)
  | not {t : Token} {ts : List Token} {e : Expr} : t.kind = .symbol .bang →
    Derives .unary ts e → Derives .unary (t :: ts) (.not e t.position)
  | postfixed {ts : List Token} {e : Expr} : Derives .postfixed ts e → Derives .unary ts e
  | primary {ts : List Token} {e : Expr} : Derives .primary ts e → Derives .postfixed ts e
  | access {ts us : List Token} {t u : Token} {e : Expr} {property : String} {args : List Expr} :
    Derives .postfixed ts e → t.kind = .symbol .colon → u.kind = .ident property →
    Derives (.listOrNone .expression) us args →
    Derives .postfixed (ts ++ t :: u :: us) (.access e property args)
  -- Expressions in one piece
  | number {t : Token} {x : Float} : t.kind = .number x →
    Derives .primary [t] (.number x t.position)
  | bool {t : Token} {b : Bool} : t.kind = .bool b → Derives .primary [t] (.bool b t.position)
  | named {ts : List Token} {e : Expr} : Derives .named ts e → Derives .primary ts e
  | geometry {ts : List Token} {e : Expr} : Derives .geometry ts e → Derives .primary ts e
  | function {ts : List Token} {e : Expr} : Derives .function ts e → Derives .primary ts e
  | functionCall {ts us : List Token} {e : Expr} {args : List Expr} : Derives .function ts e →
    Derives (.listOrNone .expression) us args → Derives .primary (ts ++ us) (.call e args)
  | generate {ts : List Token} {e : Expr} : Derives .generate ts e → Derives .primary ts e
  | condition {ts : List Token} {e : Expr} : Derives .condition ts e → Derives .primary ts e
  | point {ts : List Token} {e : Expr} : Derives .barePoint ts e → Derives .primary ts e
  | group {ts : List Token} {e : Expr} : Derives .group ts e → Derives .primary ts e
  | parentheses {t u : Token} {ts : List Token} {e : Expr} : t.kind = .symbol .lparen →
    Derives .expression ts e → u.kind = .symbol .rparen → Derives .group (t :: (ts ++ [u])) e
  | barePoint {t u : Token} {ts : List Token} {x y : Expr} : t.kind = .symbol .lparen →
    Derives .pair ts (x, y) → u.kind = .symbol .rparen →
    Derives .barePoint (t :: (ts ++ [u])) (.geometry .point (.point x y) t.position)
  | name {t : Token} {name : String} : t.kind = .ident name →
    Derives .named [t] (.ident name t.position)
  | nameCall {t : Token} {ts : List Token} {name : String} {args : List Expr} :
    t.kind = .ident name → Derives (.listOrNone .expression) ts args →
    Derives .named (t :: ts) (.call (.ident name t.position) args)
  -- Shapes
  | typeTag {t : Token} {kind : Geometry.Kind} : t.kind = .geometry kind →
    Derives .geometry [t] (.typeTag kind t.position)
  | emptyShape {t u : Token} {kind : Geometry.Kind} {word : String} : t.kind = .geometry kind →
    u.kind = .ident word → word.toUpper = "EMPTY" →
    Derives .geometry [t, u] (.geometry kind .empty t.position)
  | shape {t : Token} {ts : List Token} {kind : Geometry.Kind} {b : Body} :
    t.kind = .geometry kind → Derives (.body kind) ts b →
    Derives .geometry (t :: ts) (.geometry kind b t.position)
  | pointBody {t u : Token} {ts : List Token} {x y : Expr} : t.kind = .symbol .lparen →
    Derives .pair ts (x, y) → u.kind = .symbol .rparen →
    Derives (.body .point) (t :: (ts ++ [u])) (.point x y)
  | lineStringBody {ts : List Token} {es : List Element} : Derives (.list .element) ts es →
    Derives (.body .lineString) ts (.elements es)
  | multiPointBody {ts : List Token} {es : List Element} : Derives (.list .element) ts es →
    Derives (.body .multiPoint) ts (.elements es)
  | collectionBody {ts : List Token} {es : List Element} : Derives (.listOrNone .element) ts es →
    Derives (.body .collection) ts (.elements es)
  | polygonBody {ts : List Token} {rs : List (List Element)} :
    Derives (.list (.list .element)) ts rs → Derives (.body .polygon) ts (.rings rs)
  | multiLineStringBody {ts : List Token} {rs : List (List Element)} :
    Derives (.list (.list .element)) ts rs → Derives (.body .multiLineString) ts (.rings rs)
  | multiPolygonBody {ts : List Token} {ps : List (List (List Element))} :
    Derives (.list (.list (.list .element))) ts ps →
    Derives (.body .multiPolygon) ts (.polygons ps)
  | pairElement {ts : List Token} {x y : Expr} : Derives .pair ts (x, y) →
    Derives .element ts (.pair x y)
  | valueElement {ts : List Token} {e : Expr} : Derives .expression ts e →
    Derives .element ts (.value e)
  | two {ts us : List Token} {x y : Expr} : Derives .coord ts x → Derives .coord us y →
    Derives .pair (ts ++ us) (x, y)
  | three {ts us vs : List Token} {x y z : Expr} : Derives .coord ts x → Derives .coord us y →
    Derives .coord vs z → Derives .pair (ts ++ (us ++ vs)) (x, y)
  | four {ts us vs ws : List Token} {x y z m : Expr} : Derives .coord ts x →
    Derives .coord us y → Derives .coord vs z → Derives .coord ws m →
    Derives .pair (ts ++ (us ++ (vs ++ ws))) (x, y)
  | plainCoord {t : Token} {x : Float} : t.kind = .number x →
    Derives .coord [t] (.number x t.position)
  | plusCoord {s t : Token} {x : Float} : s.kind = .symbol .plus → t.kind = .number x →
    s.touches t = true → Derives .coord [s, t] (.number x s.position)
  | minusCoord {s t : Token} {x : Float} : s.kind = .symbol .minus → t.kind = .number x →
    s.touches t = true → Derives .coord [s, t] (.number (-x) s.position)
  | namedCoord {ts : List Token} {e : Expr} : Derives .named ts e → Derives .coord ts e
  | groupCoord {ts : List Token} {e : Expr} : Derives .group ts e → Derives .coord ts e
  -- Functions, repetition and choice
  | plainFunction {t u v : Token} {ts us : List Token} {names : List String} {e : Expr} :
    t.kind = .word .function → u.kind = .symbol .lparen → Derives .params ts names →
    v.kind = .symbol .arrow → Derives (.sequence (.symbol .rparen)) us e →
    Derives .function (t :: u :: (ts ++ v :: us)) (.function names e t.position)
  | bracedFunction {t u v w r : Token} {ts us : List Token} {names : List String} {e : Expr} :
    t.kind = .word .function → u.kind = .symbol .lparen → Derives .params ts names →
    v.kind = .symbol .arrow → w.kind = .symbol .lbrace →
    Derives (.sequence (.symbol .rbrace)) us e → r.kind = .symbol .rparen →
    Derives .function (t :: u :: (ts ++ v :: w :: (us ++ [r]))) (.function names e t.position)
  | oneParam {t : Token} {name : String} : t.kind = .ident name → Derives .params [t] [name]
  | params {ts : List Token} {names : List String} : Derives (.listOrNone .identifier) ts names →
    Derives .params ts names
  | identifier {t : Token} {name : String} : t.kind = .ident name → Derives .identifier [t] name
  | generation {t : Token} {ts us : List Token} {e f : Expr} : t.kind = .word .generate →
    Derives (.level .additive) ts e → Derives (.level .additive) us f →
    Derives .generate (t :: (ts ++ us)) (.generate e f t.position)
  | choice {t u v : Token} {ts us vs : List Token} {e f g : Expr} : t.kind = .word .ifWord →
    Derives .expression ts e → u.kind = .word .thenWord → Derives .branch us f →
    v.kind = .word .elseWord → Derives .branch vs g →
    Derives .condition (t :: (ts ++ u :: (us ++ v :: vs))) (.cond e f g t.position)
  | sequenceBranch {t : Token} {ts : List Token} {e : Expr} : t.kind = .symbol .lparen →
    Derives (.sequence (.symbol .rparen)) ts e → Derives .branch (t :: ts) e
  | pointBranch {ts : List Token} {e : Expr} : Derives .barePoint ts e → Derives .branch ts e
  -- Lists
  | last {s : Phrase} {ts : List Token} {a : s.Tree} : Derives s ts a → Derives (.series s) ts [a]
  | more {s : Phrase} {ts us : List Token} {t : Token} {a : s.Tree} {as : List s.Tree} :
    Derives s ts a → t.kind = .symbol .comma → Derives (.series s) us as →
    Derives (.series s) (ts ++ t :: us) (a :: as)
  | list {s : Phrase} {t u : Token} {ts : List Token} {as : List s.Tree} :
    t.kind = .symbol .lparen → Derives (.series s) ts as → u.kind = .symbol .rparen →
    Derives (.list s) (t :: (ts ++ [u])) as
  | some {s : Phrase} {ts : List Token} {as : List s.Tree} : Derives (.list s) ts as →
    Derives (.listOrNone s) ts as
  | none {s : Phrase} {t u : Token} : t.kind = .symbol .lparen → u.kind = .symbol .rparen →
    Derives (.listOrNone s) [t, u] []

/-! ## The form of trees -/

/-- What is known of the trees of a nonterminal. -/
def Phrase.IsForm : (s : Phrase) → s.Tree → Prop
  | .sequence _, e => e.fits .any .body = true ∧ e.fits .any .branch = true
  | .items, es => ∀ e ∈ es, e.fits .any .item = true
  | .item, e => e.fits .any .item = true
  | .function, e => e.isCallee = true ∧ e.fits .any .operand = true
  | .barePoint, e => e.fits .any .operand = true ∧ e.fits .any .branch = true
  | .body kind, b => b.fits .any kind = true
  | .branch, e => e.fits .any .branch = true
  | .element, e => e.fits .any = true
  | .pair, xy => xy.1.fits .any .coordinate = true ∧ xy.2.fits .any .coordinate = true
  | .coord, e => e.fits .any .coordinate = true
  | .params, _ => True
  | .identifier, _ => True
  | .series s, as => as ≠ [] ∧ ∀ a ∈ as, s.IsForm a
  | .list s, as => as ≠ [] ∧ ∀ a ∈ as, s.IsForm a
  | .listOrNone s, as => ∀ a ∈ as, s.IsForm a
  | .level _, e => e.fits .any .operand = true
  | .operand _, e => e.fits .any .operand = true
  | .power, e => e.fits .any .operand = true
  | .unary, e => e.fits .any .operand = true
  | .postfixed, e => e.fits .any .operand = true
  | .primary, e => e.fits .any .operand = true
  | .group, e => e.fits .any .operand = true
  | .named, e => e.fits .any .operand = true
  | .geometry, e => e.fits .any .operand = true
  | .generate, e => e.fits .any .operand = true
  | .condition, e => e.fits .any .operand = true

/-- A value may stand as an item. -/
theorem Expr.fits_item {V : Vocabulary} {e : Expr} (h : e.fits V .operand = true) :
    e.fits V .item = true := by
  cases e <;> simp_all [Expr.fits]

/-- A value may stand as a coordinate. -/
theorem Expr.fits_coordinate {e : Expr} (h : e.fits .any .operand = true) :
    e.fits .any .coordinate = true := by
  cases e <;> simp_all [Expr.fits]

/-- **Trees of derivations have the form that their place asks for.** -/
theorem Derives.isForm {s : Phrase} {ts : List Token} {t : s.Tree} (h : Derives s ts t) :
    s.IsForm t := by
  induction h with
  | expressionItem _ ih => exact Expr.fits_item ih
  | namedCoord _ ih => exact Expr.fits_coordinate ih
  | groupCoord _ ih => exact Expr.fits_coordinate ih
  | polygonBody _ ih =>
    obtain ⟨hne, hrings⟩ := ih
    simpa [Phrase.IsForm, Body.fits, hne] using hrings
  | multiLineStringBody _ ih =>
    obtain ⟨hne, hrings⟩ := ih
    simpa [Phrase.IsForm, Body.fits, hne] using hrings
  | multiPolygonBody _ ih =>
    obtain ⟨hne, hpolygons⟩ := ih
    simpa [Phrase.IsForm, Body.fits, hne] using hpolygons
  | _ => simp_all [Phrase.IsForm, Expr.fits, Element.fits, Body.fits]

end GeoScript
