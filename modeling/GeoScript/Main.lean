import GeoScript.Command

/-!
# The program

Reads files and standard input, and prints what `GeoScript.Command` makes of them. An interactive
session is answered line by line.
-/

namespace GeoScript.Program

open Command

/-- Prints, and says whether the run is over. -/
def emit (p : Printed) : IO (Option Nat) := do
  let out ← IO.getStdout
  out.putStr p.stdout
  out.flush
  (← IO.getStderr).putStr p.stderr
  return p.exit

/-- Random numbers, at least zero and less than one: the top 53 bits of a count that goes up by an
odd constant and is scrambled. -/
def numbersFrom (seed : UInt64) (n : Nat) : Float :=
  let a := seed + .ofNat (n + 1) * 0x9e3779b97f4a7c15
  let b := (a ^^^ (a >>> 30)) * 0xbf58476d1ce4e5b9
  let c := (b ^^^ (b >>> 27)) * 0x94d049bb133111eb
  ((c ^^^ (c >>> 31)) >>> 11).toFloat / 9007199254740992

/-- Reads a file. -/
def readSource (name : String) : IO (Except ReadFault String) := do
  try
    return decode (← IO.FS.readBinFile name)
  catch e =>
    return .error <| match e with
      | .noFileOrDirectory .. => .notFound
      | .inappropriateType .. => .isDirectory
      | e => .other (toString e)

/-- The next line of the input without its end, or `none` at the end of the input. -/
partial def readLine (input : IO.FS.Stream) (line : ByteArray) :
    IO (Option (Except ReadFault String)) := do
  let byte ← input.read 1
  if byte.isEmpty then
    return if line.isEmpty then none else some (decode line)
  else if byte.get! 0 == 10 then
    return (inputLines (line.push 10)).head?
  else
    readLine input (line ++ byte)

/-- Runs named sources in order. -/
def scripts (st : State) : List (String × Option String) → IO (Except Nat State)
  | [] => return .ok st
  | (name, source) :: rest => do
    let contents ← match source with
      | some text => pure (.ok text)
      | none => readSource name
    let (printed, st) := st.file name contents
    match ← emit printed with
    | some code => return .error code
    | none => scripts st rest

/-- Answers the input line by line. -/
partial def interact (input : IO.FS.Stream) (st : State) (repl : Repl) : IO Nat := do
  let _ ← emit (prompt repl)
  match ← readLine input .empty with
  | none => return 0
  | some line =>
    let (printed, st, repl) := st.line repl line
    match ← emit printed with
    | some code => return code
    | none => interact input st repl

/-- A run with real files and real input. -/
def start (arguments : List String) : IO Nat := do
  match Invocation.ofArguments arguments with
  | .run o =>
    let seed ← IO.rand 0 4611686018427387903
    let draws := ⟨numbersFrom seed.toUInt64, 0⟩
    let sources := o.script.toList.map (fun s => ("<evaluate>", some s)) ++
      o.files.map fun name => (name, none)
    match ← scripts (.start o.resultFormat draws) sources with
    | .error code => return code
    | .ok st =>
      if o.interactive then interact (← IO.getStdin) st .start else return 0
  | _ =>
    let run := Command.run (fun _ => .error .notFound) arguments .empty 0
    (← IO.getStdout).putStr run.stdout
    (← IO.getStderr).putStr run.stderr
    return run.exit

end GeoScript.Program

def main (arguments : List String) : IO UInt32 := do
  return (← GeoScript.Program.start arguments).toUInt32
