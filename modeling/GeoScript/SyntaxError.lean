import GeoScript.Token.Basic

/-!
# Syntax errors

Reading a source stops at the first fault. A `SyntaxError` says what was wrong and where; codes
and wording are derived from the fault, here and nowhere else.
-/

namespace GeoScript

/-- What the grammar wanted where something else stood. -/
inductive Expectation where
  | expression
  | coordinate
  | identifier
  | endOfProgram
  deriving Repr, DecidableEq, Inhabited

def Expectation.text : Expectation → String
  | expression => "expression"
  | coordinate => "coordinate"
  | identifier => "identifier"
  | endOfProgram => "`;` or end of input"

/-- What is wrong with a source text. -/
inductive SyntaxFault where
  /-- A character that starts no token. -/
  | unexpectedChar (char : Char)
  /-- A point behind digits with no digit after it. -/
  | missingFraction
  /-- A number text that stands for no number. -/
  | unreadableNumber (text : List Char)
  /-- A token that cannot stand where it stands. -/
  | unexpected (wanted : Expectation) (found : Token.Kind)
  /-- A sign in a coordinate without a number behind it. -/
  | numberAfterSign
  /-- A fixed token that is missing. -/
  | missing (wanted : Token.Kind) (found : Token.Kind)
  deriving Repr, DecidableEq, Inhabited

namespace SyntaxFault

/-- The phase and number under which a fault is reported. -/
def code : SyntaxFault → String
  | unexpectedChar _ => "L001"
  | missingFraction => "L002"
  | unreadableNumber _ => "L002"
  | unexpected .. => "P001"
  | numberAfterSign => "P001"
  | missing .. => "P002"

/-- The first byte of a character, shown as the character of that number. -/
def firstByte (c : Char) : Char :=
  Char.ofNat ((String.utf8EncodeChar c).headD 0).toNat

def message : SyntaxFault → String
  | unexpectedChar c => "unexpected character `" ++ (firstByte c).toString ++ "`"
  | missingFraction => "malformed number: expected digits after `.`"
  | unreadableNumber text => "malformed number `" ++ String.ofList text ++ "`"
  | unexpected wanted found => "expected " ++ wanted.text ++ ", found " ++ found.describe
  | numberAfterSign => "expected number after sign"
  | missing wanted found => "expected " ++ wanted.describe ++ ", found " ++ found.describe

end SyntaxFault

/-- A fault and its place. -/
structure SyntaxError where
  fault : SyntaxFault
  position : Position
  deriving Repr, DecidableEq, Inhabited

/-- The form `[code] line:column: message`. -/
def SyntaxError.message (e : SyntaxError) : String :=
  "[" ++ e.fault.code ++ "] " ++ e.position.text ++ ": " ++ e.fault.message

end GeoScript
