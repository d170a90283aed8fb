import GeoScript.Eval
import GeoScript.Expr.Parser
import GeoScript.Geometry.GeoJson
import GeoScript.Token.Lexer

/-!
# Evaluating source texts

**One evaluation** reads a source text, evaluates it in a scope, binds the result to `$?` there,
and gives back the frames that are no longer in use. A text that cannot be read changes nothing; an
evaluation that fails keeps the bindings it has made and leaves `$?` alone.
-/

namespace GeoScript

/-- Reads a source text as one sequence. -/
def parse (source : String) : Except SyntaxError Expr := Lexer.scan source >>= Expr.parse

/-- The name that every successful evaluation binds its result to. -/
def lastResult : String := "$?"

/-- How deep calls may nest. -/
def callLimit : Nat := 2000

/-- Evaluates a program in a scope, with calls nested no deeper than the limit. -/
def Heap.execute (limit : Nat) (program : Expr) (scope : ScopeId) (h : Heap) :
    Except EvalError Value × Heap :=
  (program.eval ⟨callAt limit limit, h.programs, scope⟩).run.run
    { h with programs := h.programs + 1 }

/-- Binds a result to `$?`, if there is one. -/
def Heap.remember (scope : ScopeId) (result : Except EvalError Value) (h : Heap) : Heap :=
  match result with
  | .ok v => h.store scope lastResult v
  | .error _ => h

/-- Evaluates a source text in a scope. -/
def evaluate (source : String) (scope : ScopeId) (h : Heap) : Except Error Value × Heap :=
  match parse source with
  | .error e => (.error (.reading e), h)
  | .ok program =>
    let (result, h) := h.execute callLimit program scope
    (result.mapError .running, (h.remember scope result).collect (h.rootOf scope))

/-- A heap with one root that binds the standard libraries, and the number of that root. -/
def Heap.fresh (draws : Draws) : ScopeId × Heap :=
  let (root, h) := (Heap.empty draws).newGlobal
  (root, h.hold root)

/-- Evaluates a source text on its own. -/
def evaluateAlone (source : String) : Except Error Value :=
  let (root, h) := Heap.fresh 0
  (evaluate source root h).1

/-! ## Texts of results -/

/-- How results are written. -/
inductive ResultFormat where
  | wkt | geoJson
  deriving Repr, DecidableEq, Inhabited

/-- The document of a value. -/
def Value.json : Value → Json
  | .geometry g => g.json
  | .number x => .number x
  | .bool b => .bool b
  | .unit => .null
  | v => .string v.text

/-- The text of a value in a format. -/
def ResultFormat.render (f : ResultFormat) (v : Value) : String :=
  match f with
  | wkt => v.text
  | geoJson => v.json.pretty

end GeoScript
