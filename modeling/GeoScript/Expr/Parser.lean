import Std.Data.HashSet
import GeoScript.Expr.Basic
import GeoScript.SyntaxError

/-!
# From tokens to expressions

**The grammar** is read by recursive descent. Two coordinates side by side, as in `(1 -2)`, can
only be told from a parenthesized expression by trying: an attempt at a pair that fails gives
nothing and consumes nothing. Places where a pair was tried in vain are remembered, so that no
place is tried twice; the plain parser, which remembers nothing, runs with `none` for the memory.

**Recursion.** Every nonterminal takes the parsers of the nonterminals it refers back to as an
argument `sub`, and uses them only behind a token it has consumed. `run n` ties the knot `n`
times, which is enough for fewer than `n` tokens. Running out is an outcome of its own, which no
attempt takes for a failure.
-/

namespace GeoScript

open Token (Kind)

/-! ## Reading tokens -/

/-- A place in a token list: the token before it, the tokens from it on, and how many tokens
precede it. -/
structure Cursor where
  previous : Option Token
  rest : List Token
  index : Nat
  deriving Inhabited

namespace Cursor

def start (tokens : List Token) : Cursor := ⟨none, tokens, 0⟩

/-- The token at the cursor. Token lists end in an end mark, which is never passed. -/
def token (c : Cursor) : Token := c.rest.headD ⟨.eof, .start, 0⟩

def kind (c : Cursor) : Kind := c.token.kind

/-- One token on, unless the token is the last one. -/
def advance (c : Cursor) : Cursor :=
  match c.rest with
  | t :: u :: rest => ⟨some t, u :: rest, c.index + 1⟩
  | _ => c

/-- The kind of the token after the next one. -/
def secondKind? (c : Cursor) : Option Kind := (c.rest[1]?).map Token.kind

/-- Whether the sign at the cursor belongs to a number behind it: it touches the number, and the
token before it, unless that opens or divides a list, does not touch it. So `4 -18` are two
coordinates, while `a - 1` and `a-1` are differences. -/
def atCoordinateSign (c : Cursor) : Bool :=
  match c.rest[1]? with
  | some number =>
    (match number.kind with | .number _ => true | _ => false) && c.token.touches number &&
      match c.previous with
      | none => true
      | some t => !t.touches c.token || t.kind == .symbol .lparen || t.kind == .symbol .comma
  | none => false

/-- Whether a coordinate can start here. -/
def startsCoord (c : Cursor) : Bool :=
  match c.kind with
  | .number _ | .ident _ | .symbol .lparen => true
  | .symbol .plus | .symbol .minus => c.atCoordinateSign
  | _ => false

end Cursor

/-- How reading ends: with a value and the place behind it, with an error, or without an answer
because the recursion was not unrolled far enough. -/
inductive Outcome (α : Type) where
  | ok (value : α) (cursor : Cursor)
  | error (error : SyntaxError)
  | unfinished

/-- The token indices at which a pair was tried in vain, or `none` to remember nothing. -/
abbrev Memory := Option (Std.HashSet Nat)

def Memory.isFailed (m : Memory) (index : Nat) : Bool :=
  match m with
  | some failed => failed.contains index
  | none => false

def Memory.addFailed (m : Memory) (index : Nat) : Memory := m.map (·.insert index)

theorem Memory.isFailed_addFailed {m : Memory} {i j : Nat} (h : (m.addFailed i).isFailed j = true) :
    i = j ∨ m.isFailed j = true := by
  cases m with
  | none => cases h
  | some failed => simpa [Memory.addFailed, Memory.isFailed] using h

/-- A reader of tokens. Memory is kept across failures. -/
def TokenReader (α : Type) := Cursor → Memory → Outcome α × Memory

namespace TokenReader

variable {α β : Type}

@[inline] protected def pure (a : α) : TokenReader α := fun c m => (.ok a c, m)

@[inline] protected def bind (p : TokenReader α) (f : α → TokenReader β) : TokenReader β := fun c m =>
  match p c m with
  | (.ok a c, m) => f a c m
  | (.error e, m) => (.error e, m)
  | (.unfinished, m) => (.unfinished, m)

instance : Monad TokenReader where
  pure := TokenReader.pure
  bind := TokenReader.bind

def unfinished : TokenReader α := fun _ m => (.unfinished, m)

/-- The place that has been reached. -/
@[inline] def here : TokenReader Cursor := fun c m => (.ok c c, m)

@[inline] def peekKind : TokenReader Kind := fun c m => (.ok c.kind c, m)

@[inline] def position : TokenReader Position := fun c m => (.ok c.token.position c, m)

/-- Passes the token at the cursor. -/
@[inline] def next : TokenReader Token := fun c m => (.ok c.token c.advance, m)

@[inline] def fail (fault : SyntaxFault) (position : Position) : TokenReader α :=
  fun _ m => (.error ⟨fault, position⟩, m)

/-- Reports that something else was wanted at the cursor. -/
def unexpected (wanted : Expectation) : TokenReader α := fun c m =>
  (.error ⟨.unexpected wanted c.kind, c.token.position⟩, m)

/-- Passes a token of the given kind, if it is there. -/
def accept (kind : Kind) : TokenReader Bool := fun c m =>
  if c.kind == kind then (.ok true c.advance, m) else (.ok false c, m)

/-- Passes a token of the given kind, which has to be there. -/
def expect (kind : Kind) : TokenReader Unit := fun c m =>
  if c.kind == kind then (.ok () c.advance, m)
  else (.error ⟨.missing kind c.kind, c.token.position⟩, m)

def ident : TokenReader String := fun c m =>
  match c.kind with
  | .ident name => (.ok name c.advance, m)
  | _ => (.error ⟨.unexpected .identifier c.kind, c.token.position⟩, m)

/-- Runs a reader for what may be there. If it gives nothing or fails, nothing is consumed. -/
def attempt (p : TokenReader (Option α)) : TokenReader (Option α) := fun c m =>
  match p c m with
  | (.ok (some a) c, m) => (.ok (some a) c, m)
  | (.ok none _, m) => (.ok none c, m)
  | (.error _, m) => (.ok none c, m)
  | (.unfinished, m) => (.unfinished, m)

/-- Items up to a closing parenthesis, divided by commas; `done` holds those read, last first. -/
def items (item : TokenReader α) : Nat → List α → TokenReader (List α)
  | 0, _ => unfinished
  | n + 1, done => do
    let a ← item
    if ← accept (.symbol .comma) then
      items item n (a :: done)
    else
      expect (.symbol .rparen)
      return (a :: done).reverse

/-- A parenthesized list. -/
def list (n : Nat) (allowEmpty : Bool) (item : TokenReader α) : TokenReader (List α) := do
  expect (.symbol .lparen)
  if allowEmpty then
    if ← accept (.symbol .rparen) then return []
    else items item n []
  else items item n []

end TokenReader

/-! ## The grammar -/

/-- The levels of binary operators that group to the left, loosest first. -/
inductive Level where
  | or | and | equality | comparison | pipeline | additive | multiplicative
  deriving Repr, DecidableEq

/-- The operator that a token stands for at a level. -/
def Level.operator? : Level → Kind → Option BinaryOp
  | .or, .word .orWord => some (.logic .or)
  | .and, .word .andWord => some (.logic .and)
  | .equality, .symbol .equalEqual => some (.equality false)
  | .equality, .symbol .bangEqual => some (.equality true)
  | .comparison, .symbol .less => some (.compare .lt)
  | .comparison, .symbol .lessEqual => some (.compare .le)
  | .comparison, .symbol .greater => some (.compare .gt)
  | .comparison, .symbol .greaterEqual => some (.compare .ge)
  | .pipeline, .symbol .pipe => some (.pipe .apply)
  | .pipeline, .symbol .pipePipe => some (.pipe .map)
  | .pipeline, .symbol .pipeGreater => some (.pipe .filter)
  | .pipeline, .symbol .pipeStar => some (.pipe .deepMap)
  | .pipeline, .symbol .plusPlus => some .concat
  | .additive, .symbol .plus => some (.arith .add)
  | .additive, .symbol .minus => some (.arith .sub)
  | .multiplicative, .symbol .star => some (.arith .mul)
  | .multiplicative, .symbol .slash => some (.arith .div)
  | .multiplicative, .symbol .percent => some (.arith .mod)
  | _, _ => none

/-- The nonterminals that the grammar refers back to. -/
inductive Goal where
  | expression | additive | power | unary | sequence
  deriving Repr, DecidableEq

namespace Grammar

open TokenReader

variable (n : Nat) (sub : Goal → TokenReader Expr)

/-- Arguments in parentheses. -/
def arguments : TokenReader (List Expr) := list n true (sub .expression)

/-- A call directly behind an identifier or a function. -/
def callTail (callee : Expr) : TokenReader Expr := do
  if (← peekKind) == .symbol .lparen then
    return .call callee (← arguments n sub)
  else
    return callee

/-! ### Coordinates -/

/-- A number whose sign, if it has one, touches it; an identifier, perhaps called; or an
expression in parentheses. -/
def coord : TokenReader Expr := do
  let c ← here
  let p := c.token.position
  match c.kind with
  | .number x =>
    let _ ← next
    return .number x p
  | .ident name =>
    let _ ← next
    callTail n sub (.ident name p)
  | .symbol .lparen =>
    let _ ← next
    let e ← sub .expression
    expect (.symbol .rparen)
    return e
  | .symbol s =>
    if (s = .plus ∨ s = .minus) ∧ c.atCoordinateSign then
      let _ ← next
      let t ← next
      match t.kind with
      | .number x => return .number (if s = .minus then -x else x) p
      | _ => fail .numberAfterSign t.position
    else
      unexpected .coordinate
  | _ => unexpected .coordinate

/-- A further coordinate, which is read and dropped. -/
def extraCoord : TokenReader Bool := do
  if (← here).startsCoord then
    let _ ← coord n sub
    return true
  else
    return false

/-- Two coordinates, and up to two more that are dropped. -/
def pair : TokenReader (Expr × Expr) := do
  let x ← coord n sub
  let y ← coord n sub
  if ← extraCoord n sub then
    let _ ← extraCoord n sub
    return (x, y)
  else
    return (x, y)

/-- A pair in front of a comma or a closing parenthesis, if one can be read here. -/
def pairBeforeDelimiter : TokenReader (Option (Expr × Expr)) := do
  let xy ← pair n sub
  match ← peekKind with
  | .symbol .comma | .symbol .rparen => return some xy
  | _ => return none

/-- Tries `pairBeforeDelimiter`, but no more than once at each place. -/
def tryPair : TokenReader (Option (Expr × Expr)) := fun c m =>
  if m.isFailed c.index then (.ok none c, m)
  else
    match attempt (pairBeforeDelimiter n sub) c m with
    | (.ok none c, m) => (.ok none c, m.addFailed c.index)
    | outcome => outcome

/-- A pair in parentheses of its own, if one can be read here. -/
def tryParenthesizedPair : TokenReader (Option (Expr × Expr)) :=
  attempt do
    if ← accept (.symbol .lparen) then
      match ← tryPair n sub with
      | some xy => if ← accept (.symbol .rparen) then return some xy else return none
      | none => return none
    else
      return none

/-- A pair if one can be read here, else an expression. -/
def element : TokenReader Element := do
  match ← tryPair n sub with
  | some (x, y) => return .pair x y
  | none => return .value (← sub .expression)

def ring : TokenReader (List Element) := list n false (element n sub)

/-- What stands in the parentheses behind the name of a shape. -/
def body : Geometry.Kind → TokenReader Body
  | .point => do
    expect (.symbol .lparen)
    let (x, y) ← pair n sub
    expect (.symbol .rparen)
    return .point x y
  | .lineString | .multiPoint => do return .elements (← list n false (element n sub))
  | .collection => do return .elements (← list n true (element n sub))
  | .polygon | .multiLineString => do return .rings (← list n false (ring n sub))
  | .multiPolygon => do return .polygons (← list n false (list n false (ring n sub)))

/-- The name of a shape, alone, with `EMPTY`, or with a list in parentheses. -/
def geometry (kind : Geometry.Kind) : TokenReader Expr := do
  let p ← position
  let _ ← next
  match ← peekKind with
  | .ident name =>
    if name.toUpper == "EMPTY" then
      let _ ← next
      return .geometry kind .empty p
    else
      return .typeTag kind p
  | .symbol .lparen => return .geometry kind (← body n sub kind) p
  | _ => return .typeTag kind p

/-! ### Functions, repetition and choice -/

/-- One parameter, or a list of them in parentheses. -/
def params : TokenReader (List String) := do
  if (← peekKind) == .symbol .lparen then list n true ident
  else return [← ident]

/-- A function with its parameters and its body, which may stand in braces. -/
def function : TokenReader Expr := do
  let p ← position
  expect (.word .function)
  expect (.symbol .lparen)
  let names ← params n
  expect (.symbol .arrow)
  if ← accept (.symbol .lbrace) then
    let body ← sub .sequence
    expect (.symbol .rbrace)
    expect (.symbol .rparen)
    return .function names body p
  else
    let body ← sub .sequence
    expect (.symbol .rparen)
    return .function names body p

def generate : TokenReader Expr := do
  let p ← position
  expect (.word .generate)
  let count ← sub .additive
  let body ← sub .additive
  return .generate count body p

/-- A branch of a condition: a pair or a sequence, in parentheses. -/
def branch : TokenReader Expr := do
  let p ← position
  match ← tryParenthesizedPair n sub with
  | some (x, y) => return .geometry .point (.point x y) p
  | none =>
    expect (.symbol .lparen)
    let body ← sub .sequence
    expect (.symbol .rparen)
    return body

def condition : TokenReader Expr := do
  let p ← position
  expect (.word .ifWord)
  let test ← sub .expression
  expect (.word .thenWord)
  let thenBranch ← branch n sub
  expect (.word .elseWord)
  let elseBranch ← branch n sub
  return .cond test thenBranch elseBranch p

/-! ### Expressions -/

/-- A pair in parentheses, which is a point, or an expression in parentheses. -/
def parenthesized : TokenReader Expr := do
  let p ← position
  match ← tryParenthesizedPair n sub with
  | some (x, y) => return .geometry .point (.point x y) p
  | none =>
    let _ ← next
    let e ← sub .expression
    expect (.symbol .rparen)
    return e

def primary : TokenReader Expr := do
  let p ← position
  match ← peekKind with
  | .number x =>
    let _ ← next
    return .number x p
  | .bool b =>
    let _ ← next
    return .bool b p
  | .ident name =>
    let _ ← next
    callTail n sub (.ident name p)
  | .geometry kind => geometry n sub kind
  | .word .function => callTail n sub (← function n sub)
  | .word .generate => generate sub
  | .word .ifWord => condition n sub
  | .symbol .lparen => parenthesized n sub
  | _ => unexpected .expression

/-- Accessors behind an expression. -/
def accessors : Nat → Expr → TokenReader Expr
  | 0, _ => unfinished
  | k + 1, target => do
    if ← accept (.symbol .colon) then
      let property ← ident
      let args ← arguments n sub
      accessors k (.access target property args)
    else
      return target

def postfixed : TokenReader Expr := do accessors n sub n (← primary n sub)

def unary : TokenReader Expr := do
  let p ← position
  if ← accept (.symbol .minus) then
    return .neg (← sub .unary) p
  else if ← accept (.symbol .bang) then
    return .not (← sub .unary) p
  else
    postfixed n sub

/-- Powers group to the right. -/
def power : TokenReader Expr := do
  let base ← unary n sub
  if ← accept (.symbol .caret) then
    return .binary (.arith .pow) base (← sub .power)
  else
    return base

/-- Operators of a level and their right operands behind a left operand. -/
def operations (level : Level) (operand : TokenReader Expr) : Nat → Expr → TokenReader Expr
  | 0, _ => unfinished
  | k + 1, left => do
    match level.operator? (← peekKind) with
    | some op =>
      let _ ← next
      let right ← operand
      operations level operand k (.binary op left right)
    | none => return left

/-- The operators of the given levels, loosest first. -/
def levels : List Level → TokenReader Expr
  | [] => power n sub
  | level :: tighter => do
    let left ← levels tighter
    operations level (levels tighter) n left

def additive : TokenReader Expr := levels n sub [.additive, .multiplicative]

def expression : TokenReader Expr :=
  levels n sub [.or, .and, .equality, .comparison, .pipeline, .additive, .multiplicative]

/-! ### Sequences -/

/-- A declaration or an expression. -/
def item : TokenReader Expr := do
  let c ← here
  match c.kind, c.secondKind? with
  | .ident name, some (.symbol .equal) =>
    let _ ← next
    let _ ← next
    return .decl name (← expression n sub) c.token.position
  | _, _ => expression n sub

/-- Items up to a closing parenthesis, a closing brace or the end; empty items are skipped. -/
def sequenceItems : Nat → List Expr → TokenReader (List Expr)
  | 0, _ => unfinished
  | k + 1, done => do
    match ← peekKind with
    | .symbol .rparen | .symbol .rbrace | .eof => return done.reverse
    | _ =>
      if ← accept (.symbol .semicolon) then
        sequenceItems k done
      else
        let e ← item n sub
        if ← accept (.symbol .semicolon) then sequenceItems k (e :: done)
        else return (e :: done).reverse

def sequence : TokenReader Expr := do
  let p ← position
  return .seq (← sequenceItems n sub n []) p

/-- The nonterminal of a goal. -/
def goal : Goal → TokenReader Expr
  | .expression => expression n sub
  | .additive => additive n sub
  | .power => power n sub
  | .unary => unary n sub
  | .sequence => sequence n sub

end Grammar

/-- The parser of a goal, with the recursion unrolled `n` times. -/
def Grammar.run : Nat → Goal → TokenReader Expr
  | 0, _ => TokenReader.unfinished
  | n + 1, g => Grammar.goal (n + 1) (Grammar.run n) g

/-- A sequence up to the end of the input. -/
def Grammar.program (n : Nat) : TokenReader Expr := do
  let e ← Grammar.run n .sequence
  if (← TokenReader.peekKind) == .eof then return e
  else TokenReader.unexpected .endOfProgram

/-- Parses a token list that ends in an end mark, starting from a memory of failed pairs. One
unrolling more than there are tokens always suffices. -/
def Expr.parseWith (memory : Memory) (tokens : List Token) : Except SyntaxError Expr :=
  match (Grammar.program (tokens.length + 1) (.start tokens) memory).1 with
  | .ok e _ => .ok e
  | .error e => .error e
  | .unfinished => .error ⟨.unexpected .expression .eof, .start⟩

/-- Parses a token list that ends in an end mark. -/
def Expr.parse (tokens : List Token) : Except SyntaxError Expr :=
  Expr.parseWith (some ∅) tokens

end GeoScript
