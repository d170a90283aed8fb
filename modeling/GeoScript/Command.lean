import GeoScript.Repl
import GeoScript.Session

/-!
# The command line

**Arguments** name script files and set options, in any order. A script given as an argument runs
first, then the files run in order, all in one scope; then, if asked for, an interactive session
goes on in the same scope.

**Results** go to standard output, except that scripts print no unit; errors go to standard error
and end the run, but not an interactive session.

Everything here is a function of the arguments, the contents of the files and the bytes of the
standard input. `Run` collects what is printed.
-/

namespace GeoScript.Command

/-! ## Arguments -/

structure Options where
  script : Option String
  files : List String
  format : ResultFormat
  geoJson : Bool
  interactive : Bool
  deriving Repr, Inhabited

def Options.default : Options := ⟨none, [], .wkt, false, false⟩

/-- The format that results are written in. -/
def Options.resultFormat (o : Options) : ResultFormat :=
  if o.geoJson then .geoJson else o.format

/-- What the arguments ask for. -/
inductive Invocation where
  | help
  | version
  | run (options : Options)
  | misuse (argument : String)
  deriving Repr, Inhabited

/-- What has been read of the arguments: the options, or that reading is over. -/
abbrev Reading := Except Invocation Options

/-- The format of a name. -/
def formatNamed? : String → Option ResultFormat
  | "wkt" => some .wkt
  | "geo-json" => some .geoJson
  | _ => none

def setFormat (o : Options) (name : String) : Reading :=
  match formatNamed? name with
  | some format => .ok { o with format }
  | none => .error (.misuse name)

/-- An option that takes a value, with the value still to come. -/
inductive Awaiting where
  | script
  | format
  deriving Repr, DecidableEq

def Awaiting.give (o : Options) (value : String) : Awaiting → Reading
  | script => .ok { o with script := some value }
  | format => setFormat o value

/-- Short options in one argument. The value of `e` is what follows it there, after an equals sign
if there is one, or else the next argument. -/
def shortOptions (argument : String) (o : Options) :
    List Char → Except Invocation (Options × Option Awaiting)
  | [] => .ok (o, none)
  | 'i' :: rest => shortOptions argument { o with interactive := true } rest
  | 'h' :: _ => .error .help
  | 'V' :: _ => .error .version
  | ['e'] => .ok (o, some .script)
  | 'e' :: '=' :: value => .ok ({ o with script := some (String.ofList value) }, none)
  | 'e' :: value => .ok ({ o with script := some (String.ofList value) }, none)
  | _ :: _ => .error (.misuse argument)

/-- A long option, with its value if one follows an equals sign. -/
def longOption (argument : String) (o : Options) (name : String) (value : Option String) :
    Except Invocation (Options × Option Awaiting) :=
  match name, value with
  | "evaluate", some v => .ok ({ o with script := some v }, none)
  | "evaluate", none => .ok (o, some .script)
  | "format", some v => (setFormat o v).map (·, none)
  | "format", none => .ok (o, some .format)
  | "geojson", none => .ok ({ o with geoJson := true }, none)
  | "interactive", none => .ok ({ o with interactive := true }, none)
  | "help", none => .error .help
  | "version", none => .error .version
  | _, _ => .error (.misuse argument)

/-- Splits at the first equals sign. -/
def splitEquals (cs : List Char) : String × Option String :=
  let value := cs.dropWhile (· != '=')
  (String.ofList (cs.takeWhile (· != '=')),
    if value.isEmpty then none else some (String.ofList (value.drop 1)))

/-- One argument where an option may stand. -/
def option (o : Options) (argument : String) : Except Invocation (Options × Option Awaiting) :=
  match argument.toList with
  | '-' :: '-' :: name =>
    let (name, value) := splitEquals name
    longOption argument o name value
  | '-' :: short =>
    if short.isEmpty then .ok ({ o with files := o.files ++ [argument] }, none)
    else shortOptions argument o short
  | _ => .ok ({ o with files := o.files ++ [argument] }, none)

/-- Whether an argument looks like an option, so that it cannot be the value of one. -/
def looksLikeOption (argument : String) : Bool :=
  match argument.toList with
  | '-' :: _ :: _ => true
  | _ => false

/-- Reads the arguments from left to right. -/
def readArguments (o : Options) (awaiting : Option Awaiting) : List String → Invocation
  | [] =>
    match awaiting with
    | none => .run o
    | some _ => .misuse ""
  | argument :: rest =>
    match awaiting with
    | some a =>
      if looksLikeOption argument then .misuse argument
      else
        match a.give o argument with
        | .ok o => readArguments o none rest
        | .error i => i
    | none =>
      if argument == "--" then .run { o with files := o.files ++ rest }
      else
        match option o argument with
        | .ok (o, awaiting) => readArguments o awaiting rest
        | .error i => i

def Invocation.ofArguments (arguments : List String) : Invocation :=
  match readArguments .default none arguments with
  | .run o =>
    if o.script.isNone && o.files.isEmpty && !o.interactive then .help else .run o
  | i => i

/-! ## Texts -/

def versionText : String := "wktl 0.1.0\n"

def helpText : String :=
  "\n".intercalate [
    "Evaluate WKT-flavored geometry scripts.",
    "",
    "Usage: wktl [OPTIONS] [FILES]...",
    "",
    "Arguments:",
    "  [FILES]...  Script files, evaluated in order against one shared scope",
    "",
    "Options:",
    "  -e, --evaluate <EVALUATE>  Script text evaluated before any file",
    "      --format <FORMAT>      How results are printed [default: wkt] " ++
      "[possible values: wkt, geo-json]",
    "      --geojson              Shorthand for `--format geo-json`",
    "  -i, --interactive          Start an interactive session after running any scripts",
    "  -h, --help                 Print help (see more with '--help')",
    "  -V, --version              Print version",
    ""]

/-- An error as it is reported, with its mark in bright red and bold. -/
def errorLine (message : String) : String :=
  "\x1b[38;5;9m\x1b[1merror:\x1b[0m " ++ message ++ "\n"

/-- The prompt of an entry, in dark grey. -/
def promptLine (entry : Nat) : String :=
  "\x1b[38;5;8m--- [" ++ toString entry ++ "] ---\x1b[39m\n"

/-- Why a file cannot be read. -/
inductive ReadFault where
  | notFound
  | isDirectory
  | notText
  | other (reason : String)
  deriving Repr, Inhabited

def ReadFault.message : ReadFault → String
  | notFound => "No such file or directory (os error 2)"
  | isDirectory => "Is a directory (os error 21)"
  | notText => "stream did not contain valid UTF-8"
  | other reason => reason

/-- The text that bytes stand for. -/
def decode (bytes : ByteArray) : Except ReadFault String :=
  match String.fromUTF8? bytes with
  | some s => .ok s
  | none => .error .notText

/-! ## Runs -/

/-- A run in progress: its scope, and how it prints results. -/
structure State where
  heap : Heap
  scope : ScopeId
  format : ResultFormat
  deriving Inhabited

def State.start (format : ResultFormat) (draws : Draws) : State :=
  let (scope, heap) := Heap.fresh draws
  ⟨heap, scope, format⟩

/-- What is printed at one go, and whether the run is over. -/
structure Printed where
  stdout : String
  stderr : String
  exit : Option Nat
  deriving Repr, Inhabited

namespace Printed

def nothing : Printed := ⟨"", "", none⟩

def result (text : String) : Printed := ⟨text ++ "\n", "", none⟩

/-- An error that does not end the run. -/
def report (message : String) : Printed := ⟨"", errorLine message, none⟩

/-- An error that ends the run. -/
def failure (message : String) : Printed := ⟨"", errorLine message, some 1⟩

end Printed

/-- Evaluates a source text. -/
def State.evaluate (st : State) (source : String) : Except Error Value × State :=
  let (result, heap) := GeoScript.evaluate source st.scope st.heap
  (result, { st with heap })

/-- Runs a script from a named source. -/
def State.script (st : State) (name source : String) : Printed × State :=
  let (result, st) := st.evaluate source
  match result with
  | .ok .unit => (.nothing, st)
  | .ok v => (.result (st.format.render v), st)
  | .error e => (.failure (name ++ ": " ++ e.message), st)

/-- Runs a file, given by its name and what reading it gave. -/
def State.file (st : State) (name : String) (contents : Except ReadFault String) :
    Printed × State :=
  match contents with
  | .ok source => st.script name source
  | .error fault => (.failure ("cannot read " ++ name ++ ": " ++ fault.message), st)

/-- Evaluates an entry of an interactive session. -/
def State.entry (st : State) (source : String) : Printed × State :=
  let (result, st) := st.evaluate source
  match result with
  | .ok v => (.result (st.format.render v), st)
  | .error e => (.report ("<repl>: " ++ e.message), st)

/-- Takes in a line of an interactive session, or the failure to read one. -/
def State.line (st : State) (repl : Repl) (text : Except ReadFault String) :
    Printed × State × Repl :=
  match text with
  | .error fault => (.failure ("input error: " ++ fault.message), st, repl)
  | .ok text =>
    match repl.feed text.toList with
    | (.wait, repl) => (.nothing, st, repl)
    | (.exit, repl) => ({ Printed.nothing with exit := some 0 }, st, repl)
    | (.evaluate source, repl) =>
      let (printed, st) := st.entry source
      (printed, st, repl)

/-- What a whole run has printed, and its exit code. -/
structure Run where
  stdout : String
  stderr : String
  exit : Nat
  deriving Repr, Inhabited

namespace Run

def start : Run := ⟨"", "", 0⟩

def add (run : Run) (p : Printed) : Run :=
  ⟨run.stdout ++ p.stdout, run.stderr ++ p.stderr, p.exit.getD run.exit⟩

end Run

/-- Runs named sources one after the other until one of them ends the run. The second component
is `none` if one did. -/
def runFiles (run : Run) (st : State) : List (String × Except ReadFault String) → Run × Option State
  | [] => (run, some st)
  | (name, contents) :: rest =>
    let (printed, st) := st.file name contents
    if printed.exit.isSome then (run.add printed, none)
    else runFiles (run.add printed) st rest

/-- What is printed before a line is read. -/
def prompt (repl : Repl) : Printed :=
  if repl.promptDue then ⟨promptLine repl.entry, "", none⟩ else .nothing

/-- Runs an interactive session over the lines of the input. -/
def runLines (run : Run) (st : State) (repl : Repl) : List (Except ReadFault String) → Run
  | [] => run.add (prompt repl)
  | line :: rest =>
    let run := run.add (prompt repl)
    let (printed, st, repl) := st.line repl line
    if printed.exit.isSome then run.add printed
    else runLines (run.add printed) st repl rest

/-- Splits bytes into lines at line feeds; a carriage return in front of one belongs to it. What
follows the last line feed is a line unless it is empty. -/
def splitLines : List UInt8 → List UInt8 → List (List UInt8)
  | [], current => if current.isEmpty then [] else [current.reverse]
  | b :: bs, current =>
    if b == 10 then
      let line := match current with
        | c :: more => if c == 13 then more else current
        | [] => []
      line.reverse :: splitLines bs []
    else splitLines bs (b :: current)

/-- The lines of the input, each of them read on its own. -/
def inputLines (stdin : ByteArray) : List (Except ReadFault String) :=
  (splitLines stdin.toList []).map fun line => decode ⟨line.toArray⟩

/-- A whole run, given the contents of files by name and the standard input. -/
def run (read : String → Except ReadFault String) (arguments : List String) (stdin : ByteArray)
    (draws : Draws) : Run :=
  match Invocation.ofArguments arguments with
  | .help => { Run.start with stdout := helpText }
  | .version => { Run.start with stdout := versionText }
  | .misuse argument => ⟨"", "error: unexpected argument '" ++ argument ++ "'\n", 2⟩
  | .run o =>
    let scripts := o.script.toList.map fun s => ("<evaluate>", Except.ok s)
    let files := o.files.map fun name => (name, read name)
    match runFiles .start (.start o.resultFormat draws) (scripts ++ files) with
    | (run, none) => run
    | (run, some st) => if o.interactive then runLines run st .start (inputLines stdin) else run

end GeoScript.Command
