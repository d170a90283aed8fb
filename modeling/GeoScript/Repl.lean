import GeoScript.Text.Blank

/-!
# Reading entries

**Entries** of an interactive session end in `;;` and may run over several lines. Each line read is
added to the pending text; then at most one entry is taken from its front, and what is left stays
pending, without the blanks in front of it.

**The prompt** is due before a line is read whenever nothing but blanks is pending.
-/

namespace GeoScript

/-- What is pending, and the number of the next entry. -/
structure Repl where
  pending : List Char
  entry : Nat
  deriving Repr, DecidableEq, Inhabited

namespace Repl

def start : Repl := ⟨[], 1⟩

/-- Splits a text at the first `;;`. -/
def splitAtMark? : List Char → Option (List Char × List Char)
  | [] => none
  | ';' :: ';' :: rest => some ([], rest)
  | c :: cs => (splitAtMark? cs).map fun (entry, rest) => (c :: entry, rest)

/-- What a line leads to. -/
inductive Action where
  | wait
  | evaluate (source : String)
  | exit
  deriving Repr, DecidableEq, Inhabited

/-- Whether a prompt is due. -/
def promptDue (r : Repl) : Bool := Text.isAllBlank r.pending

/-- Takes in a line, without its end. -/
def feed (r : Repl) (line : List Char) : Action × Repl :=
  let text := r.pending ++ line ++ ['\n']
  match splitAtMark? text with
  | none => (.wait, { r with pending := text })
  | some (entry, rest) =>
    let pending := Text.trimStart rest
    if Text.trim entry = "exit()".toList then (.exit, { r with pending })
    else (.evaluate (String.ofList entry), ⟨pending, r.entry + 1⟩)

end Repl

end GeoScript
