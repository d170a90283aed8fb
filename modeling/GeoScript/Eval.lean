import GeoScript.Heap.Collect
import GeoScript.Library.Registry
import GeoScript.Pipeline
import GeoScript.Value.Access
import GeoScript.Value.Arithmetic

/-!
# Evaluation

**Expressions** are evaluated by recursion on their structure, in a scope that stays the same
throughout: declarations bind names in it, and everything else only reads it. How a closure is
called is left open: it is a field of the context.

**Calls.** `callAt d` calls a closure when `d` more nested calls are allowed. The body is evaluated
in a fresh frame inside the scope that the closure was made in, with calls that have one level
less. So evaluation ends for every program: on the allowed depth first, on the expression second.

**Frames** end with their call. Only a closure can lead back to the frame it was made in, so a
frame is given back at once unless the call returned a closure.
-/

namespace GeoScript

/-- What an expression is evaluated in. -/
structure Context where
  /-- Calls a closure with arguments, on behalf of an expression at a line. -/
  invoke : Closure → List Value → Nat → Effect Heap Value
  /-- The number of the program that the expression is part of. -/
  program : Nat
  scope : ScopeId

namespace Context

variable (ctx : Context)

/-- Calls a closure or a library function. -/
def call (f : Value) (args : List Value) (line : Nat) : Effect Heap Value :=
  match f with
  | .closure c => ctx.invoke c args line
  | .native n => n.call args line
  | v => .fail (v.needed .function) line

/-- Calls a function with an element of a pipeline. The index is handed over to closures, and to
those library functions that take two arguments. -/
def callElement (f : Value) (line : Nat) (element : Value) (index : Nat) : Effect Heap Value :=
  match f with
  | .native n =>
    if n.accepts 2 then ctx.call f [element, .number (Float.ofNat index)] line
    else ctx.call f [element] line
  | _ => ctx.call f [element, .number (Float.ofNat index)] line

/-- Sends a source through a function. -/
def pipe (kind : PipeKind) (source f : Value) (line : Nat) : Effect Heap Value :=
  if f.isCallable then
    match kind with
    | .apply => ctx.call f [source] line
    | .map => Pipeline.map line (ctx.callElement f line) source
    | .filter => Pipeline.filter line (ctx.callElement f line) source
    | .deepMap => Pipeline.deepMap line (ctx.callElement f line) source
  else
    .fail (.typeMismatch (.pipeTarget kind f.typeName)) line

def generate (count body : Value) (line : Nat) : Effect Heap Value :=
  Pipeline.generate line (fun f i => ctx.call f [.number (Float.ofNat i)] line) count body

/-- The value of a name. -/
def resolve (name : String) (line : Nat) : Effect Heap Value := do
  match (← get).resolve ctx.scope name with
  | some v => return v
  | none => .fail (.unresolved name) line

/-- Binds a name. -/
def declare (name : String) (v : Value) : Effect Heap Value := do
  modify fun h => h.store ctx.scope name v
  return .unit

end Context

mutual

/-- The value of an expression. -/
def Expr.eval (ctx : Context) : Expr → Effect Heap Value
  | .number x _ => return .number x
  | .bool b _ => return .bool b
  | .ident name p => ctx.resolve name p.line
  | .typeTag k _ => return .type k
  | .decl name value _ => do ctx.declare name (← value.eval ctx)
  | .seq items _ => Expr.evalSeq ctx items .unit
  | .geometry kind body _ => body.eval ctx kind
  | .function params body p => return .closure ⟨⟨params, body, ⟨ctx.program, p⟩⟩, ctx.scope⟩
  | .call callee args => do
    let f ← callee.eval ctx
    let values ← Expr.evalAll ctx args []
    ctx.call f values callee.line
  | .access target property args => do
    let v ← target.eval ctx
    let values ← Expr.evalAll ctx args []
    .ofExcept target.line (v.access property values)
  | .binary op left right =>
    match op with
    | .logic op => do
      let l ← .ofExcept left.line (← left.eval ctx).asBool
      let r ← .ofExcept left.line (← right.eval ctx).asBool
      return .bool (match op with | .and => l && r | .or => l || r)
    | .equality negated => do
      let l ← left.eval ctx
      let r ← right.eval ctx
      return .bool ((l == r) != negated)
    | .compare op => do
      let l ← left.eval ctx
      let r ← right.eval ctx
      .ofExcept left.line (l.compare op r)
    | .pipe kind => do
      let f ← right.eval ctx
      let source ← left.eval ctx
      ctx.pipe kind source f left.line
    | .concat => do
      let l ← left.eval ctx
      let r ← right.eval ctx
      .ofExcept left.line (l.concat r)
    | .arith op => do
      let l ← left.eval ctx
      let r ← right.eval ctx
      .ofExcept left.line (l.arith op r)
  | .generate count body p => do
    let n ← count.eval ctx
    let v ← body.eval ctx
    ctx.generate n v p.line
  | .cond condition thenBranch elseBranch p => do
    if ← .ofExcept p.line (← condition.eval ctx).asBool then thenBranch.eval ctx
    else elseBranch.eval ctx
  | .not operand p => do
    let b ← .ofExcept p.line (← operand.eval ctx).asBool
    return .bool !b
  | .neg operand p => do
    let v ← operand.eval ctx
    .ofExcept p.line (Value.arith .sub (.number 0) v)

/-- The value of the last item of a sequence; `last` if there is none. -/
def Expr.evalSeq (ctx : Context) : List Expr → Value → Effect Heap Value
  | [], last => return last
  | e :: es, _ => do
    let v ← e.eval ctx
    Expr.evalSeq ctx es v

/-- The values of several expressions, after those in `done`, which stand last first. -/
def Expr.evalAll (ctx : Context) : List Expr → List Value → Effect Heap (List Value)
  | [], done => return done.reverse
  | e :: es, done => do
    let v ← e.eval ctx
    Expr.evalAll ctx es (v :: done)

/-- The coordinate that an entry of a coordinate list stands for. -/
def Element.coord (ctx : Context) : Element → Effect Heap Coord
  | .pair x y => do
    let vx ← .ofExcept x.line (← x.eval ctx).asNumber
    let vy ← .ofExcept y.line (← y.eval ctx).asNumber
    return ⟨vx, vy⟩
  | .value e => do .ofExcept e.line (← e.eval ctx).asListPoint

/-- The geometry that a member of a collection stands for; a pair is a point. -/
def Element.member (ctx : Context) : Element → Effect Heap Geometry
  | .pair x y => do
    let vx ← .ofExcept x.line (← x.eval ctx).asNumber
    let vy ← .ofExcept y.line (← y.eval ctx).asNumber
    return .point ⟨vx, vy⟩
  | .value e => do .ofExcept e.line (← e.eval ctx).asMember

def Element.coords (ctx : Context) : List Element → List Coord → Effect Heap (List Coord)
  | [], done => return done.reverse
  | e :: es, done => do
    let c ← e.coord ctx
    Element.coords ctx es (c :: done)

def Element.members (ctx : Context) : List Element → List Geometry → Effect Heap (List Geometry)
  | [], done => return done.reverse
  | e :: es, done => do
    let g ← e.member ctx
    Element.members ctx es (g :: done)

def Element.rings (ctx : Context) :
    List (List Element) → List (List Coord) → Effect Heap (List (List Coord))
  | [], done => return done.reverse
  | r :: rs, done => do
    let cs ← Element.coords ctx r []
    Element.rings ctx rs (cs :: done)

def Element.polygons (ctx : Context) :
    List (List (List Element)) → List (List (List Coord)) →
      Effect Heap (List (List (List Coord)))
  | [], done => return done.reverse
  | p :: ps, done => do
    let rs ← Element.rings ctx p []
    Element.polygons ctx ps (rs :: done)

/-- The geometry of a kind that is written out. The empty point is unit. -/
def Body.eval (ctx : Context) (kind : Geometry.Kind) : Body → Effect Heap Value
  | .empty =>
    match Geometry.empty? kind with
    | some g => return .geometry g
    | none => return .unit
  | .point x y => do
    let vx ← .ofExcept x.line (← x.eval ctx).asNumber
    let vy ← .ofExcept y.line (← y.eval ctx).asNumber
    return .point ⟨vx, vy⟩
  | .elements items =>
    match kind with
    | .collection => do return .geometry (.collection (← Element.members ctx items []))
    | .multiPoint => do return .geometry (.multiPoint (← Element.coords ctx items []))
    | _ => do return .geometry (.lineString (← Element.coords ctx items []))
  | .rings rs =>
    match kind with
    | .multiLineString => do return .geometry (.multiLineString (← Element.rings ctx rs []))
    | _ => do return .geometry (.polygon (← Element.rings ctx rs []))
  | .polygons ps => do return .geometry (.multiPolygon (← Element.polygons ctx ps []))

end

/-! ## Calls -/

/-- A fresh frame inside the scope of a closure, with its parameters bound to the arguments as far
as both reach. -/
def Heap.enter (f : Closure) (args : List Value) (h : Heap) : ScopeId × Heap :=
  let (frame, h) := h.newChild f.scope
  (frame, (f.lambda.params.zip args).foldl (fun h (name, v) => h.store frame name v) h)

/-- Gives a frame back at the end of its call, unless the call returned a closure. -/
def Heap.leave (frame : ScopeId) (result : Except EvalError Value) (h : Heap) : Heap :=
  match result with
  | .ok (.closure _) => h
  | _ => h.release frame

/-- Calls a closure when the given number of nested calls is still allowed. The limit is what an
error reports. -/
def callAt (limit : Nat) : Nat → Closure → List Value → Nat → Effect Heap Value
  | 0, _, _, line => .fail (.recursionLimit limit) line
  | allowed + 1, f, args, _ => do
    let frame ← Effect.change (Heap.enter f args)
    let result ← Effect.outcome
      (f.lambda.body.eval ⟨callAt limit allowed, f.lambda.origin.program, frame⟩)
    modify (Heap.leave frame result)
    .ofOutcome result

end GeoScript
