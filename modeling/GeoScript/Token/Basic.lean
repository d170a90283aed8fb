import GeoScript.Decimal.Layout
import GeoScript.Geometry.Basic

/-!
# Tokens

**Kinds.** A source text is a list of numbers, truth values, identifiers, geometry keywords, other
reserved words and symbols, closed by one end mark. Reserved words are matched against whole
identifiers in any case of letters, so `pointA` stays an identifier.

**Places.** A token knows the line and the column of its first byte and how many bytes it covers.
`touches` says that nothing stands between two tokens; next to the sign of a coordinate this
decides how the sign is read.
-/

namespace GeoScript

/-- A place in a source text. Lines and columns start at one; columns count bytes. -/
structure Position where
  line : Nat
  column : Nat
  deriving Repr, DecidableEq, Inhabited

namespace Position

def start : Position := ⟨1, 1⟩

/-- The place behind a character. -/
def after (p : Position) (c : Char) : Position :=
  if c == '\n' then ⟨p.line + 1, 1⟩ else ⟨p.line, p.column + c.utf8Size⟩

/-- The place behind a text. -/
def afterText (p : Position) (cs : List Char) : Position := cs.foldl after p

/-- The form `line:column`. -/
def text (p : Position) : String := s!"{p.line}:{p.column}"

end Position

/-- The operators and punctuation marks. -/
inductive Symbol where
  | plusPlus | equalEqual | arrow | bangEqual | lessEqual | greaterEqual
  | pipePipe | pipeGreater | pipeStar
  | plus | minus | star | slash | percent | caret
  | equal | bang | less | greater | pipe
  | colon | comma | semicolon | lparen | rparen | lbrace | rbrace
  deriving Repr, DecidableEq, Inhabited

namespace Symbol

/-- All symbols, those of two characters first: the first that fits is the longest. -/
def all : List Symbol :=
  [plusPlus, equalEqual, arrow, bangEqual, lessEqual, greaterEqual, pipePipe, pipeGreater,
    pipeStar, plus, minus, star, slash, percent, caret, equal, bang, less, greater, pipe,
    colon, comma, semicolon, lparen, rparen, lbrace, rbrace]

def text : Symbol → String
  | plusPlus => "++"
  | equalEqual => "=="
  | arrow => "=>"
  | bangEqual => "!="
  | lessEqual => "<="
  | greaterEqual => ">="
  | pipePipe => "||"
  | pipeGreater => "|>"
  | pipeStar => "|*"
  | plus => "+"
  | minus => "-"
  | star => "*"
  | slash => "/"
  | percent => "%"
  | caret => "^"
  | equal => "="
  | bang => "!"
  | less => "<"
  | greater => ">"
  | pipe => "|"
  | colon => ":"
  | comma => ","
  | semicolon => ";"
  | lparen => "("
  | rparen => ")"
  | lbrace => "\x7b"
  | rbrace => "\x7d"

end Symbol

/-- The reserved words other than truth values and the names of shapes. -/
inductive Word where
  | function | generate | ifWord | thenWord | elseWord | andWord | orWord
  deriving Repr, DecidableEq, Inhabited

namespace Word

def all : List Word := [function, generate, ifWord, thenWord, elseWord, andWord, orWord]

/-- The word as messages show it. -/
def text : Word → String
  | function => "Function"
  | generate => "Generate"
  | ifWord => "if"
  | thenWord => "then"
  | elseWord => "else"
  | andWord => "and"
  | orWord => "or"

end Word

/-- What a token is. -/
inductive Token.Kind where
  | number (value : Float)
  | bool (value : Bool)
  | ident (name : String)
  | geometry (kind : Geometry.Kind)
  | word (word : Word)
  | symbol (symbol : Symbol)
  | eof
  deriving Repr, DecidableEq, Inhabited

namespace Token.Kind

/-- The kind of a word: reserved if it is one in any case of letters, else an identifier. -/
def ofWord (name : String) : Kind :=
  match Geometry.Kind.ofKeyword? name with
  | some k => geometry k
  | none =>
    match Word.all.find? fun w => w.text.toLower == name.toLower with
    | some w => word w
    | none =>
      if name.toLower == "true" then bool true
      else if name.toLower == "false" then bool false
      else ident name

def boolText (b : Bool) : String := if b then "true" else "false"

/-- The kind as messages show it. -/
def describe : Kind → String
  | number x => "number `" ++ Decimal.text x ++ "`"
  | bool b => "`" ++ boolText b ++ "`"
  | ident name => "identifier `" ++ name ++ "`"
  | geometry k => "`" ++ k.keyword ++ "`"
  | word w => "`" ++ w.text ++ "`"
  | symbol s => "`" ++ s.text ++ "`"
  | eof => "end of input"

end Token.Kind

/-- The groups in which tokens are listed. -/
inductive Token.Category where
  | number | ident | eof | keyword | arithmetic | comparison | pipeline | other
  deriving Repr, DecidableEq

def Token.Kind.category : Token.Kind → Token.Category
  | .number _ => .number
  | .ident _ => .ident
  | .eof => .eof
  | .bool _ | .geometry _ | .word _ => .keyword
  | .symbol s => match s with
    | .plus | .minus | .star | .slash | .percent | .caret => .arithmetic
    | .less | .lessEqual | .greater | .greaterEqual => .comparison
    | .pipe | .pipePipe | .pipeGreater | .pipeStar | .plusPlus => .pipeline
    | _ => .other

def Token.Category.name : Token.Category → String
  | .number => "number"
  | .ident => "ident"
  | .eof => "eof"
  | .keyword => "keyword"
  | .arithmetic => "arithmetic"
  | .comparison => "comparison"
  | .pipeline => "pipeline"
  | .other => "other"

/-- A token and where it stands. -/
structure Token where
  kind : Token.Kind
  position : Position
  /-- How many bytes of the source the token covers. -/
  length : Nat
  deriving Repr, DecidableEq, Inhabited

/-- The next token starts on the same line right where this one ends. -/
def Token.touches (token next : Token) : Bool :=
  token.position.line == next.position.line &&
    token.position.column + token.length == next.position.column

end GeoScript
