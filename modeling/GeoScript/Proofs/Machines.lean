import GeoScript.Eval

/-!
# Machines

**The walk.** How an expression is evaluated does not depend on what is kept in the state. A machine
says all that the walk over an expression has to be told: how names are read and bound, which
closure a function literal makes, how closures are called, where random numbers come from, and what
is done around every evaluation and every call. `Expr.interpret` is the walk for any machine.

**Declared names.** An expression binds names in its scope only by the declarations in it that are
outside all function literals.

**Theorem (`interpret_restricted`).** For the machine of a context, which does nothing around, the
walk is the evaluation in that context. This holds as well if the machine ignores all bindings but
those of the names that the expression declares. So a machine that keeps a record keeps one of the
evaluation, and a machine that can bind some names only is enough for an expression that declares no
other.
-/

namespace GeoScript

variable {σ : Type}

/-- Calls a library function, with random numbers from the given source. -/
def Native.run (random : Effect σ Float) (f : Native) (args : List Value) (line : Nat) :
    Effect σ Value :=
  if f.accepts args.length then
    match (Library.find? f.library).bind fun l => l.builtin? f.name with
    | some (.function g) => .ofExcept line (g args)
    | some .random => do return .number (← random)
    | none => .fail (.unresolved (f.library ++ "." ++ f.name)) line
  else
    .fail (.arity f.name f.arity args.length) line

theorem Native.run_random (f : Native) (args : List Value) (line : Nat) :
    f.run (Effect.change Heap.random) args line = f.call args line := by
  unfold Native.run Native.call
  cases Library.find? f.library with
  | none => rfl
  | some l =>
    simp only [Option.bind_some, Library.call?]
    rcases l.builtin? f.name with _ | _ | _ <;> rfl

/-- What the walk over an expression is told. -/
structure Machine (σ : Type) where
  /-- The value of a name that is read at a line. -/
  resolve : String → Nat → Effect σ Value
  /-- Binds a name. -/
  declare : String → Value → Effect σ Value
  /-- The closure of a function literal. -/
  close : List String → Expr → Position → Closure
  /-- Calls a closure with arguments, on behalf of an expression at a line. -/
  invoke : Closure → List Value → Nat → Effect σ Value
  random : Effect σ Float
  /-- What is done around the evaluation of each expression. -/
  watch : Effect σ Value → Effect σ Value
  /-- What is done around each call with the given arguments. -/
  watchCall : List Value → Effect σ Value → Effect σ Value

namespace Machine

variable (M : Machine σ)

/-- Calls a closure or a library function. -/
def call (f : Value) (args : List Value) (line : Nat) : Effect σ Value :=
  M.watchCall args <|
    match f with
    | .closure c => M.invoke c args line
    | .native n => n.run M.random args line
    | v => .fail (v.needed .function) line

/-- Calls a function with an element of a pipeline. -/
def callElement (f : Value) (line : Nat) (element : Value) (index : Nat) : Effect σ Value :=
  match f with
  | .native n =>
    if n.accepts 2 then M.call f [element, .number (Float.ofNat index)] line
    else M.call f [element] line
  | _ => M.call f [element, .number (Float.ofNat index)] line

/-- Sends a source through a function. -/
def pipe (kind : PipeKind) (source f : Value) (line : Nat) : Effect σ Value :=
  if f.isCallable then
    match kind with
    | .apply => M.call f [source] line
    | .map => Pipeline.map line (M.callElement f line) source
    | .filter => Pipeline.filter line (M.callElement f line) source
    | .deepMap => Pipeline.deepMap line (M.callElement f line) source
  else
    .fail (.typeMismatch (.pipeTarget kind f.typeName)) line

def generate (count body : Value) (line : Nat) : Effect σ Value :=
  Pipeline.generate line (fun f i => M.call f [.number (Float.ofNat i)] line) count body

end Machine

/-! ## The walk -/

mutual

/-- The value of an expression. -/
def Expr.interpret (M : Machine σ) : Expr → Effect σ Value
  | .number x _ => M.watch (return .number x)
  | .bool b _ => M.watch (return .bool b)
  | .ident name p => M.watch (M.resolve name p.line)
  | .typeTag k _ => M.watch (return .type k)
  | .decl name value _ => M.watch do M.declare name (← value.interpret M)
  | .seq items _ => M.watch (Expr.interpretSeq M items .unit)
  | .geometry kind body _ => M.watch (body.interpret M kind)
  | .function params body p => M.watch (return .closure (M.close params body p))
  | .call callee args => M.watch do
    let f ← callee.interpret M
    let values ← Expr.interpretAll M args []
    M.call f values callee.line
  | .access target property args => M.watch do
    let v ← target.interpret M
    let values ← Expr.interpretAll M args []
    .ofExcept target.line (v.access property values)
  | .binary op left right => M.watch <|
    match op with
    | .logic op => do
      let l ← .ofExcept left.line (← left.interpret M).asBool
      let r ← .ofExcept left.line (← right.interpret M).asBool
      return .bool (match op with | .and => l && r | .or => l || r)
    | .equality negated => do
      let l ← left.interpret M
      let r ← right.interpret M
      return .bool ((l == r) != negated)
    | .compare op => do
      let l ← left.interpret M
      let r ← right.interpret M
      .ofExcept left.line (l.compare op r)
    | .pipe kind => do
      let f ← right.interpret M
      let source ← left.interpret M
      M.pipe kind source f left.line
    | .concat => do
      let l ← left.interpret M
      let r ← right.interpret M
      .ofExcept left.line (l.concat r)
    | .arith op => do
      let l ← left.interpret M
      let r ← right.interpret M
      .ofExcept left.line (l.arith op r)
  | .generate count body p => M.watch do
    let n ← count.interpret M
    let v ← body.interpret M
    M.generate n v p.line
  | .cond condition thenBranch elseBranch p => M.watch do
    if ← .ofExcept p.line (← condition.interpret M).asBool then thenBranch.interpret M
    else elseBranch.interpret M
  | .not operand p => M.watch do
    let b ← .ofExcept p.line (← operand.interpret M).asBool
    return .bool !b
  | .neg operand p => M.watch do
    let v ← operand.interpret M
    .ofExcept p.line (Value.arith .sub (.number 0) v)

/-- The value of the last item of a sequence; `last` if there is none. -/
def Expr.interpretSeq (M : Machine σ) : List Expr → Value → Effect σ Value
  | [], last => return last
  | e :: es, _ => do
    let v ← e.interpret M
    Expr.interpretSeq M es v

/-- The values of several expressions, after those in `done`, which stand last first. -/
def Expr.interpretAll (M : Machine σ) : List Expr → List Value → Effect σ (List Value)
  | [], done => return done.reverse
  | e :: es, done => do
    let v ← e.interpret M
    Expr.interpretAll M es (v :: done)

/-- The coordinate that an entry of a coordinate list stands for. -/
def Element.coordOn (M : Machine σ) : Element → Effect σ Coord
  | .pair x y => do
    let vx ← .ofExcept x.line (← x.interpret M).asNumber
    let vy ← .ofExcept y.line (← y.interpret M).asNumber
    return ⟨vx, vy⟩
  | .value e => do .ofExcept e.line (← e.interpret M).asListPoint

/-- The geometry that a member of a collection stands for; a pair is a point. -/
def Element.memberOn (M : Machine σ) : Element → Effect σ Geometry
  | .pair x y => do
    let vx ← .ofExcept x.line (← x.interpret M).asNumber
    let vy ← .ofExcept y.line (← y.interpret M).asNumber
    return .point ⟨vx, vy⟩
  | .value e => do .ofExcept e.line (← e.interpret M).asMember

def Element.coordsOn (M : Machine σ) : List Element → List Coord → Effect σ (List Coord)
  | [], done => return done.reverse
  | e :: es, done => do
    let c ← e.coordOn M
    Element.coordsOn M es (c :: done)

def Element.membersOn (M : Machine σ) : List Element → List Geometry → Effect σ (List Geometry)
  | [], done => return done.reverse
  | e :: es, done => do
    let g ← e.memberOn M
    Element.membersOn M es (g :: done)

def Element.ringsOn (M : Machine σ) :
    List (List Element) → List (List Coord) → Effect σ (List (List Coord))
  | [], done => return done.reverse
  | r :: rs, done => do
    let cs ← Element.coordsOn M r []
    Element.ringsOn M rs (cs :: done)

def Element.polygonsOn (M : Machine σ) :
    List (List (List Element)) → List (List (List Coord)) → Effect σ (List (List (List Coord)))
  | [], done => return done.reverse
  | p :: ps, done => do
    let rs ← Element.ringsOn M p []
    Element.polygonsOn M ps (rs :: done)

/-- The geometry of a kind that is written out. The empty point is unit. -/
def Body.interpret (M : Machine σ) (kind : Geometry.Kind) : Body → Effect σ Value
  | .empty =>
    match Geometry.empty? kind with
    | some g => return .geometry g
    | none => return .unit
  | .point x y => do
    let vx ← .ofExcept x.line (← x.interpret M).asNumber
    let vy ← .ofExcept y.line (← y.interpret M).asNumber
    return .point ⟨vx, vy⟩
  | .elements items =>
    match kind with
    | .collection => do return .geometry (.collection (← Element.membersOn M items []))
    | .multiPoint => do return .geometry (.multiPoint (← Element.coordsOn M items []))
    | _ => do return .geometry (.lineString (← Element.coordsOn M items []))
  | .rings rs =>
    match kind with
    | .multiLineString => do return .geometry (.multiLineString (← Element.ringsOn M rs []))
    | _ => do return .geometry (.polygon (← Element.ringsOn M rs []))
  | .polygons ps => do return .geometry (.multiPolygon (← Element.polygonsOn M ps []))

end

/-! ## Declared names -/

mutual

/-- The names that an expression declares outside function literals. -/
def Expr.declared : Expr → List String
  | .number _ _ | .bool _ _ | .ident _ _ | .typeTag _ _ | .function _ _ _ => []
  | .decl name value _ => name :: value.declared
  | .seq items _ => Expr.declaredAll items
  | .geometry _ body _ => body.declared
  | .call callee args => callee.declared ++ Expr.declaredAll args
  | .access target _ args => target.declared ++ Expr.declaredAll args
  | .binary _ left right => left.declared ++ right.declared
  | .generate count body _ => count.declared ++ body.declared
  | .cond condition thenBranch elseBranch _ =>
    condition.declared ++ (thenBranch.declared ++ elseBranch.declared)
  | .not operand _ => operand.declared
  | .neg operand _ => operand.declared

def Expr.declaredAll : List Expr → List String
  | [] => []
  | e :: es => e.declared ++ Expr.declaredAll es

def Element.declared : Element → List String
  | .pair x y => x.declared ++ y.declared
  | .value e => e.declared

def Element.declaredAll : List Element → List String
  | [] => []
  | e :: es => e.declared ++ Element.declaredAll es

def Element.declaredRings : List (List Element) → List String
  | [] => []
  | r :: rs => Element.declaredAll r ++ Element.declaredRings rs

def Element.declaredPolygons : List (List (List Element)) → List String
  | [] => []
  | p :: ps => Element.declaredRings p ++ Element.declaredPolygons ps

def Body.declared : Body → List String
  | .empty => []
  | .point x y => x.declared ++ y.declared
  | .elements items => Element.declaredAll items
  | .rings rs => Element.declaredRings rs
  | .polygons ps => Element.declaredPolygons ps

end

/-! ## The machine of a context -/

/-- The machine that evaluates in a context and does nothing around. -/
def Context.machine (ctx : Context) : Machine Heap where
  resolve := ctx.resolve
  declare := ctx.declare
  close params body p := ⟨⟨params, body, ⟨ctx.program, p⟩⟩, ctx.scope⟩
  invoke := ctx.invoke
  random := Effect.change Heap.random
  watch step := step
  watchCall _ step := step

open Classical in
/-- The machine of a context that binds the allowed names only. -/
noncomputable def Context.restricted (ctx : Context) (allowed : String → Prop) : Machine Heap :=
  { ctx.machine with
    declare := fun name v => if allowed name then ctx.declare name v else return .unit }

section

variable (ctx : Context) {allowed : String → Prop}

theorem Context.restricted_true : ctx.restricted (fun _ => True) = ctx.machine := by
  simp [restricted, machine]

theorem Context.declare_restricted {name : String} (hn : allowed name) (v : Value) :
    (ctx.restricted allowed).declare name v = ctx.declare name v :=
  if_pos hn

theorem Context.declare_restricted_of_not {name : String} (hn : ¬ allowed name) (v : Value) :
    (ctx.restricted allowed).declare name v = return .unit :=
  if_neg hn

@[simp] theorem Context.call_restricted (f : Value) (args : List Value) (line : Nat) :
    (ctx.restricted allowed).call f args line = ctx.call f args line := by
  cases f with
  | native n => exact n.run_random args line
  | _ => rfl

@[simp] theorem Context.callElement_restricted (f : Value) (line : Nat) :
    (ctx.restricted allowed).callElement f line = ctx.callElement f line := by
  funext v i
  cases f <;> simp [Machine.callElement, Context.callElement]

@[simp] theorem Context.pipe_restricted (kind : PipeKind) (source f : Value) (line : Nat) :
    (ctx.restricted allowed).pipe kind source f line = ctx.pipe kind source f line := by
  unfold Machine.pipe Context.pipe
  cases kind <;> simp

@[simp] theorem Context.generate_restricted (count body : Value) (line : Nat) :
    (ctx.restricted allowed).generate count body line = ctx.generate count body line := by
  simp [Machine.generate, Context.generate]

@[simp] theorem Context.watch_restricted (step : Effect Heap Value) :
    (ctx.restricted allowed).watch step = step :=
  rfl

mutual

/-- **The walk on the machine of a context is the evaluation in that context**, as long as the
machine binds the names that the expression declares. -/
theorem interpret_restricted (e : Expr) (hd : ∀ n ∈ e.declared, allowed n) :
    e.interpret (ctx.restricted allowed) = e.eval ctx := by
  cases e with
  | number x p | bool b p | ident name p | typeTag k p | function params body p =>
    simp only [Expr.interpret, Expr.eval]
    rfl
  | decl name value p =>
    rw [Expr.declared, List.forall_mem_cons] at hd
    simp only [Expr.interpret, Expr.eval, interpret_restricted value hd.2,
      ctx.declare_restricted hd.1, Context.watch_restricted]
  | seq items p =>
    rw [Expr.declared] at hd
    simp only [Expr.interpret, Expr.eval, interpretSeq_restricted items hd,
      Context.watch_restricted]
  | geometry kind body p =>
    rw [Expr.declared] at hd
    simp only [Expr.interpret, Expr.eval, interpret_restricted_body kind body hd,
      Context.watch_restricted]
  | call callee args =>
    rw [Expr.declared, List.forall_mem_append] at hd
    simp only [Expr.interpret, Expr.eval, interpret_restricted callee hd.1,
      interpretAll_restricted args hd.2, Context.call_restricted, Context.watch_restricted]
  | access target property args =>
    rw [Expr.declared, List.forall_mem_append] at hd
    simp only [Expr.interpret, Expr.eval, interpret_restricted target hd.1,
      interpretAll_restricted args hd.2, Context.watch_restricted]
  | binary op left right =>
    rw [Expr.declared, List.forall_mem_append] at hd
    have hl := interpret_restricted left hd.1
    have hr := interpret_restricted right hd.2
    cases op with
    | logic op =>
      cases op <;> simp only [Expr.interpret, Expr.eval, hl, hr, Context.watch_restricted]
    | _ =>
      simp only [Expr.interpret, Expr.eval, hl, hr, Context.pipe_restricted,
        Context.watch_restricted]
  | generate count body p =>
    rw [Expr.declared, List.forall_mem_append] at hd
    simp only [Expr.interpret, Expr.eval, interpret_restricted count hd.1,
      interpret_restricted body hd.2, Context.generate_restricted, Context.watch_restricted]
  | cond condition thenBranch elseBranch p =>
    rw [Expr.declared, List.forall_mem_append, List.forall_mem_append] at hd
    simp only [Expr.interpret, Expr.eval, interpret_restricted condition hd.1,
      interpret_restricted thenBranch hd.2.1, interpret_restricted elseBranch hd.2.2,
      Context.watch_restricted]
  | not operand p | neg operand p =>
    rw [Expr.declared] at hd
    simp only [Expr.interpret, Expr.eval, interpret_restricted operand hd,
      Context.watch_restricted]

theorem interpretSeq_restricted (es : List Expr) (hd : ∀ n ∈ Expr.declaredAll es, allowed n)
    (last : Value) :
    Expr.interpretSeq (ctx.restricted allowed) es last = Expr.evalSeq ctx es last := by
  cases es with
  | nil => simp only [Expr.interpretSeq, Expr.evalSeq]
  | cons e es =>
    rw [Expr.declaredAll, List.forall_mem_append] at hd
    simp only [Expr.interpretSeq, Expr.evalSeq, interpret_restricted e hd.1,
      interpretSeq_restricted es hd.2]

theorem interpretAll_restricted (es : List Expr) (hd : ∀ n ∈ Expr.declaredAll es, allowed n)
    (done : List Value) :
    Expr.interpretAll (ctx.restricted allowed) es done = Expr.evalAll ctx es done := by
  cases es with
  | nil => simp only [Expr.interpretAll, Expr.evalAll]
  | cons e es =>
    rw [Expr.declaredAll, List.forall_mem_append] at hd
    simp only [Expr.interpretAll, Expr.evalAll, interpret_restricted e hd.1,
      interpretAll_restricted es hd.2]

theorem coordOn_restricted (e : Element) (hd : ∀ n ∈ e.declared, allowed n) :
    e.coordOn (ctx.restricted allowed) = e.coord ctx := by
  cases e with
  | pair x y =>
    rw [Element.declared, List.forall_mem_append] at hd
    simp only [Element.coordOn, Element.coord, interpret_restricted x hd.1,
      interpret_restricted y hd.2]
  | value e =>
    rw [Element.declared] at hd
    simp only [Element.coordOn, Element.coord, interpret_restricted e hd]

theorem memberOn_restricted (e : Element) (hd : ∀ n ∈ e.declared, allowed n) :
    e.memberOn (ctx.restricted allowed) = e.member ctx := by
  cases e with
  | pair x y =>
    rw [Element.declared, List.forall_mem_append] at hd
    simp only [Element.memberOn, Element.member, interpret_restricted x hd.1,
      interpret_restricted y hd.2]
  | value e =>
    rw [Element.declared] at hd
    simp only [Element.memberOn, Element.member, interpret_restricted e hd]

theorem coordsOn_restricted (es : List Element) (hd : ∀ n ∈ Element.declaredAll es, allowed n)
    (done : List Coord) :
    Element.coordsOn (ctx.restricted allowed) es done = Element.coords ctx es done := by
  cases es with
  | nil => simp only [Element.coordsOn, Element.coords]
  | cons e es =>
    rw [Element.declaredAll, List.forall_mem_append] at hd
    simp only [Element.coordsOn, Element.coords, coordOn_restricted e hd.1,
      coordsOn_restricted es hd.2]

theorem membersOn_restricted (es : List Element) (hd : ∀ n ∈ Element.declaredAll es, allowed n)
    (done : List Geometry) :
    Element.membersOn (ctx.restricted allowed) es done = Element.members ctx es done := by
  cases es with
  | nil => simp only [Element.membersOn, Element.members]
  | cons e es =>
    rw [Element.declaredAll, List.forall_mem_append] at hd
    simp only [Element.membersOn, Element.members, memberOn_restricted e hd.1,
      membersOn_restricted es hd.2]

theorem ringsOn_restricted (rs : List (List Element))
    (hd : ∀ n ∈ Element.declaredRings rs, allowed n) (done : List (List Coord)) :
    Element.ringsOn (ctx.restricted allowed) rs done = Element.rings ctx rs done := by
  cases rs with
  | nil => simp only [Element.ringsOn, Element.rings]
  | cons r rs =>
    rw [Element.declaredRings, List.forall_mem_append] at hd
    simp only [Element.ringsOn, Element.rings, coordsOn_restricted r hd.1,
      ringsOn_restricted rs hd.2]

theorem polygonsOn_restricted (ps : List (List (List Element)))
    (hd : ∀ n ∈ Element.declaredPolygons ps, allowed n) (done : List (List (List Coord))) :
    Element.polygonsOn (ctx.restricted allowed) ps done = Element.polygons ctx ps done := by
  cases ps with
  | nil => simp only [Element.polygonsOn, Element.polygons]
  | cons p ps =>
    rw [Element.declaredPolygons, List.forall_mem_append] at hd
    simp only [Element.polygonsOn, Element.polygons, ringsOn_restricted p hd.1,
      polygonsOn_restricted ps hd.2]

theorem interpret_restricted_body (kind : Geometry.Kind) (b : Body)
    (hd : ∀ n ∈ b.declared, allowed n) :
    b.interpret (ctx.restricted allowed) kind = b.eval ctx kind := by
  cases b with
  | empty => cases kind <;> simp only [Body.interpret, Body.eval, Geometry.empty?]
  | point x y =>
    rw [Body.declared, List.forall_mem_append] at hd
    simp only [Body.interpret, Body.eval, interpret_restricted x hd.1,
      interpret_restricted y hd.2]
  | elements items =>
    rw [Body.declared] at hd
    cases kind <;>
      simp only [Body.interpret, Body.eval, membersOn_restricted items hd,
        coordsOn_restricted items hd]
  | rings rs =>
    rw [Body.declared] at hd
    cases kind <;> simp only [Body.interpret, Body.eval, ringsOn_restricted rs hd]
  | polygons ps =>
    rw [Body.declared] at hd
    simp only [Body.interpret, Body.eval, polygonsOn_restricted ps hd]

end

theorem interpret_machine (e : Expr) : e.interpret ctx.machine = e.eval ctx := by
  rw [← ctx.restricted_true]
  exact interpret_restricted ctx e fun _ _ => trivial

theorem interpretSeq_machine (es : List Expr) (last : Value) :
    Expr.interpretSeq ctx.machine es last = Expr.evalSeq ctx es last := by
  rw [← ctx.restricted_true]
  exact interpretSeq_restricted ctx es (fun _ _ => trivial) last

end

end GeoScript
