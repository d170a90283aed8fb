import GeoScript.Session
import GeoScript.Proofs.Operations
import Mathlib.Logic.ExistsUnique

/-!
# Evaluation ends

**Calls on record.** Between calls, evaluation is recursion on the expression. What a closure does
is up to the caller that the context holds. A list of calls on record *settles* a step if every
caller that answers these calls as recorded gives the step the same outcome (`Settles`).

**Call trees.** A call ends (`CallEnds`) if it is refused because calls are nested as deep as the
limit allows, or if its body is settled by calls that end one level deeper. This is an inductive
definition: a call ends by a finite tree of calls, and nothing in it can run out but the depth,
which is an error of the language.

**Theorem (`evaluation_ends`).** Every expression has exactly one outcome, a value or an error, in
every scope of every heap and from every depth of calls, and it is the one that the evaluator
computes. Two facts carry this: no step makes more than finitely many calls (`finitary_eval`, by
recursion on the expression and on the lists that pipelines walk along), and every call on the way
has one level less to go.
-/

namespace GeoScript

/-! ## Calls on record -/

/-- How closures are called. -/
abbrev Caller := Closure → List Value → Nat → Effect Heap Value

/-- A call and how it ended. -/
structure CallRecord where
  closure : Closure
  args : List Value
  line : Nat
  before : Heap
  outcome : Except EvalError Value
  after : Heap

/-- The caller answers the call as recorded. -/
def CallRecord.AnsweredBy (c : CallRecord) (invoke : Caller) : Prop :=
  (invoke c.closure c.args c.line).runOn c.before = (c.outcome, c.after)

variable {α β : Type}

/-- Every caller that answers the calls as recorded gives the step the outcome `r`. -/
def Settles (calls : List CallRecord) (m : Caller → Effect Heap α) (h : Heap)
    (r : Except EvalError α × Heap) : Prop :=
  ∀ invoke, (∀ c ∈ calls, c.AnsweredBy invoke) → (m invoke).runOn h = r

/-- A call ends as recorded when `depth` calls are in progress: it is refused, or its body is
settled by calls that end when one more call is in progress. -/
inductive CallEnds (limit : Nat) : Nat → CallRecord → Prop
  | refused {depth : Nat} {f : Closure} {args : List Value} {line : Nat} {h : Heap} :
    limit ≤ depth → CallEnds limit depth ⟨f, args, line, h, .error ⟨.recursionLimit limit, line⟩, h⟩
  | entered {depth : Nat} {f : Closure} {args : List Value} {line : Nat} {h h' : Heap}
    {r : Except EvalError Value} {calls : List CallRecord} :
    depth < limit → (∀ c ∈ calls, CallEnds limit (depth + 1) c) →
    Settles calls
      (fun invoke => f.lambda.body.eval ⟨invoke, f.lambda.origin.program, (h.enter f args).1⟩)
      (h.enter f args).2 (r, h') →
    CallEnds limit depth ⟨f, args, line, h, r, h'.leave (h.enter f args).1 r⟩

/-- An expression has an outcome when `depth` calls are in progress: it is settled by calls that
end. -/
def Evaluates (limit depth program : Nat) (scope : ScopeId) (e : Expr) (h : Heap)
    (r : Except EvalError Value × Heap) : Prop :=
  ∃ calls, (∀ c ∈ calls, CallEnds limit depth c) ∧
    Settles calls (fun invoke => e.eval ⟨invoke, program, scope⟩) h r

/-! ## Steps that make finitely many calls -/

/-- Whatever the caller, the outcome of the step is settled by finitely many of its answers. -/
def Finitary (m : Caller → Effect Heap α) : Prop :=
  ∀ invoke h, ∃ calls, (∀ c ∈ calls, CallRecord.AnsweredBy c invoke) ∧
    Settles calls m h ((m invoke).runOn h)

theorem finitary_const (m : Effect Heap α) : Finitary fun _ => m :=
  fun _ _ => ⟨[], by simp, fun _ _ => rfl⟩

/-- A call is settled by itself. -/
theorem finitary_invoke (f : Closure) (args : List Value) (line : Nat) :
    Finitary fun invoke => invoke f args line := by
  intro invoke h
  let r := (invoke f args line).runOn h
  refine ⟨[⟨f, args, line, h, r.1, r.2⟩], by simp [CallRecord.AnsweredBy, r], ?_⟩
  intro invoke' hc
  exact hc _ List.mem_cons_self

theorem finitary_bind {m : Caller → Effect Heap α} {f : α → Caller → Effect Heap β}
    (hm : Finitary m) (hf : ∀ a, Finitary (f a)) :
    Finitary fun invoke => m invoke >>= fun a => f a invoke := by
  intro invoke h
  obtain ⟨calls, hcalls, hsettles⟩ := hm invoke h
  rcases hrun : (m invoke).runOn h with ⟨r, h'⟩
  rw [hrun] at hsettles
  cases r with
  | error e =>
    refine ⟨calls, hcalls, fun invoke' hc => ?_⟩
    rw [Effect.runOn_bind_error (hsettles invoke' hc), Effect.runOn_bind_error hrun]
  | ok a =>
    -- The calls of the second step are made after those of the first one.
    obtain ⟨calls', hcalls', hsettles'⟩ := hf a invoke h'
    refine ⟨calls ++ calls', List.forall_mem_append.2 ⟨hcalls, hcalls'⟩, fun invoke' hc => ?_⟩
    obtain ⟨hc, hc'⟩ := List.forall_mem_append.1 hc
    rw [Effect.runOn_bind_ok (hsettles invoke' hc), Effect.runOn_bind_ok hrun]
    exact hsettles' invoke' hc'

/-! ### Pipelines -/

section Pipelines

open Pipeline

variable (line : Nat)

theorem finitary_mapFrom {γ : Type} {g : Caller → γ → Nat → Effect Heap β}
    (hg : ∀ a i, Finitary fun invoke => g invoke a i) (i : Nat) (as : List γ) (done : List β) :
    Finitary fun invoke => mapFrom (g invoke) i as done := by
  induction as generalizing i done with
  | nil => exact finitary_const _
  | cons a as ih => exact finitary_bind (hg a i) fun b => ih (i + 1) (b :: done)

theorem finitary_filterFrom {γ : Type} {test : Caller → γ → Nat → Effect Heap Bool}
    (ht : ∀ a i, Finitary fun invoke => test invoke a i) (i : Nat) (as done : List γ) :
    Finitary fun invoke => filterFrom (test invoke) i as done := by
  induction as generalizing i done with
  | nil => exact finitary_const _
  | cons a as ih =>
    refine finitary_bind (ht a i) fun b => ?_
    cases b with
    | true => exact ih (i + 1) (a :: done)
    | false => exact ih (i + 1) done

variable {g : Caller → Callback Heap} (hg : ∀ v i, Finitary fun invoke => g invoke v i)
include hg

theorem finitary_mapCoord (c : Coord) (i : Nat) :
    Finitary fun invoke => mapCoord line (g invoke) c i :=
  finitary_bind (hg _ i) fun _ => finitary_const _

theorem finitary_map (source : Value) :
    Finitary fun invoke => Pipeline.map line (g invoke) source := by
  have hcoords := finitary_mapFrom (finitary_mapCoord line hg)
  have hmember : ∀ x i, Finitary fun invoke => mapMember line (g invoke) x i :=
    fun x i => finitary_bind (hg _ i) fun _ => finitary_const _
  unfold Pipeline.map
  split
  · exact finitary_bind (hcoords 0 _ []) fun _ => finitary_const _
  · exact finitary_bind (hcoords 0 _ []) fun _ => finitary_const _
  · exact finitary_bind (finitary_mapFrom hmember 0 _ []) fun _ => finitary_const _
  · exact finitary_const _

theorem finitary_filter (source : Value) :
    Finitary fun invoke => Pipeline.filter line (g invoke) source := by
  have hkeeps : ∀ {γ : Type} (wrap : γ → Value) (a : γ) (i : Nat),
      Finitary fun invoke => keeps line (g invoke) wrap a i :=
    fun wrap a i => finitary_bind (hg _ i) fun _ => finitary_const _
  unfold Pipeline.filter
  split
  · exact finitary_bind (finitary_filterFrom (hkeeps _) 0 _ []) fun _ => finitary_const _
  · exact finitary_bind (finitary_filterFrom (hkeeps _) 0 _ []) fun _ => finitary_const _
  · exact finitary_bind (finitary_filterFrom (hkeeps _) 0 _ []) fun _ => finitary_const _
  · exact finitary_const _

omit hg

/-- A walk that counts what it visits makes finitely many calls, whatever it has counted before. -/
def FinitaryWalk (m : Caller → StateT Nat (Effect Heap) α) : Prop :=
  ∀ i, Finitary fun invoke => (m invoke).run i

theorem finitaryWalk_pure (a : α) :
    FinitaryWalk fun _ => (pure a : StateT Nat (Effect Heap) α) :=
  fun _ => finitary_const _

theorem finitaryWalk_bind {m : Caller → StateT Nat (Effect Heap) α}
    {f : α → Caller → StateT Nat (Effect Heap) β} (hm : FinitaryWalk m)
    (hf : ∀ a, FinitaryWalk (f a)) :
    FinitaryWalk fun invoke => m invoke >>= fun a => f a invoke := by
  intro i
  simp only [StateT.run_bind]
  exact finitary_bind (hm i) fun p => hf p.1 p.2

theorem finitaryWalk_mapM {γ : Type} {f : Caller → γ → StateT Nat (Effect Heap) β}
    (hf : ∀ a, FinitaryWalk fun invoke => f invoke a) (as : List γ) :
    FinitaryWalk fun invoke => as.mapM (f invoke) := by
  induction as with
  | nil => exact finitaryWalk_pure _
  | cons a as ih =>
    simp only [List.mapM_cons]
    exact finitaryWalk_bind (hf a) fun b => finitaryWalk_bind ih fun bs => finitaryWalk_pure _

section Traverse

variable {f : Caller → Coord → StateT Nat (Effect Heap) Coord}

mutual

theorem finitaryWalk_traverse (hf : ∀ c, FinitaryWalk fun invoke => f invoke c) (x : Geometry) :
    FinitaryWalk fun invoke => x.traverse (f invoke) := by
  have hline := finitaryWalk_mapM hf
  have hrings := finitaryWalk_mapM hline
  have hpolygons := finitaryWalk_mapM hrings
  cases x with
  | point c => exact finitaryWalk_bind (hf c) fun _ => finitaryWalk_pure _
  | lineString cs => exact finitaryWalk_bind (hline cs) fun _ => finitaryWalk_pure _
  | polygon rs => exact finitaryWalk_bind (hrings rs) fun _ => finitaryWalk_pure _
  | multiPoint cs => exact finitaryWalk_bind (hline cs) fun _ => finitaryWalk_pure _
  | multiLineString ls => exact finitaryWalk_bind (hrings ls) fun _ => finitaryWalk_pure _
  | multiPolygon ps => exact finitaryWalk_bind (hpolygons ps) fun _ => finitaryWalk_pure _
  | collection gs =>
    exact finitaryWalk_bind (finitaryWalk_traverseMembers hf gs []) fun _ => finitaryWalk_pure _

theorem finitaryWalk_traverseMembers (hf : ∀ c, FinitaryWalk fun invoke => f invoke c)
    (xs done : List Geometry) :
    FinitaryWalk fun invoke => Geometry.traverseMembers (f invoke) xs done := by
  cases xs with
  | nil => exact finitaryWalk_pure _
  | cons x xs =>
    refine finitaryWalk_bind (finitaryWalk_traverse hf x) fun y => ?_
    exact finitaryWalk_traverseMembers hf xs (y :: done)

end

end Traverse

include hg

theorem finitary_deepMap (source : Value) :
    Finitary fun invoke => deepMap line (g invoke) source := by
  have hcount : ∀ c, FinitaryWalk fun invoke => mapCounted line (g invoke) c := by
    intro c i
    have hrun : ∀ invoke, (mapCounted line (g invoke) c).run i =
        mapCoord line (g invoke) c i >>= fun c => pure (c, i + 1) := by
      intro invoke
      simp [mapCounted]
    simp only [hrun]
    exact finitary_bind (finitary_mapCoord line hg c i) fun _ => finitary_const _
  unfold deepMap
  split
  · next x =>
    simp only [StateT.run', map_eq_pure_bind, bind_assoc]
    exact finitary_bind (finitaryWalk_traverse hcount x 0) fun _ => finitary_const _
  · exact finitary_const _

omit hg

/-! ### Repetition -/

theorem finitary_repeatFrom {f : Caller → Nat → Effect Heap Value}
    (hf : ∀ i, Finitary fun invoke => f invoke i) (count i : Nat) (done : List Geometry) :
    Finitary fun invoke => repeatFrom line (f invoke) count i done := by
  induction count generalizing i done with
  | zero => exact finitary_const _
  | succ count ih =>
    refine finitary_bind (hf i) fun v => ?_
    exact finitary_bind (finitary_const (repeatedGeometry line v)) fun x => ih (i + 1) (x :: done)

theorem finitary_generate {call : Caller → Value → Nat → Effect Heap Value}
    (hcall : ∀ f i, Finitary fun invoke => call invoke f i) (count body : Value) :
    Finitary fun invoke => Pipeline.generate line (call invoke) count body := by
  unfold Pipeline.generate
  refine finitary_bind (finitary_const (.ofExcept line (repetitions count))) fun n => ?_
  split
  · exact finitary_const _
  · split
    · exact finitary_bind (finitary_repeatFrom line (hcall body) n 0 []) fun _ => finitary_const _
    · exact finitary_const _

end Pipelines

/-! ### Expressions -/

section Expressions

variable (program : Nat) (scope : ScopeId)

theorem finitary_call (f : Value) (args : List Value) (line : Nat) :
    Finitary fun invoke => Context.call ⟨invoke, program, scope⟩ f args line := by
  cases f with
  | closure c => exact finitary_invoke c args line
  | _ => exact finitary_const _

theorem finitary_callElement (f : Value) (line : Nat) (v : Value) (i : Nat) :
    Finitary fun invoke => Context.callElement ⟨invoke, program, scope⟩ f line v i := by
  unfold Context.callElement
  split
  · split
    · exact finitary_call program scope _ _ line
    · exact finitary_call program scope _ _ line
  · exact finitary_call program scope _ _ line

theorem finitary_pipe (kind : PipeKind) (source f : Value) (line : Nat) :
    Finitary fun invoke => Context.pipe ⟨invoke, program, scope⟩ kind source f line := by
  have helement := finitary_callElement program scope f line
  unfold Context.pipe
  split
  · cases kind with
    | apply => exact finitary_call program scope f _ line
    | map => exact finitary_map line helement source
    | filter => exact finitary_filter line helement source
    | deepMap => exact finitary_deepMap line helement source
  · exact finitary_const _

/-- Two steps, one after the other, and what is made of their results without further calls. -/
theorem finitary_both {m n : Caller → Effect Heap Value} (hm : Finitary m) (hn : Finitary n)
    (f : Value → Effect Heap α) (g : α → Value → Effect Heap β) :
    Finitary fun invoke => m invoke >>= fun v => f v >>= fun a => n invoke >>= fun u => g a u :=
  finitary_bind hm fun v => finitary_bind (finitary_const (f v)) fun a =>
    finitary_bind hn fun u => finitary_const (g a u)

mutual

/-- **Evaluation makes finitely many calls**, whatever the expression. -/
theorem finitary_eval : ∀ e : Expr, Finitary fun invoke => e.eval ⟨invoke, program, scope⟩
  | .number _ _ | .bool _ _ | .typeTag _ _ | .function _ _ _ => by
    simp only [Expr.eval]
    exact finitary_const _
  | .ident name p => by
    simp only [Expr.eval, Context.resolve]
    exact finitary_const _
  | .decl name value _ => by
    simp only [Expr.eval, Context.declare]
    exact finitary_bind (finitary_eval value) fun _ => finitary_const _
  | .seq items _ => by
    simp only [Expr.eval]
    exact finitary_evalSeq items .unit
  | .geometry kind body _ => by
    simp only [Expr.eval]
    exact finitary_body kind body
  | .call callee args => by
    simp only [Expr.eval]
    refine finitary_bind (finitary_eval callee) fun f => ?_
    exact finitary_bind (finitary_evalAll args []) fun vs => finitary_call program scope f vs _
  | .access target _ args => by
    simp only [Expr.eval]
    refine finitary_bind (finitary_eval target) fun v => ?_
    exact finitary_bind (finitary_evalAll args []) fun _ => finitary_const _
  | .binary op left right => by
    have hl := finitary_eval left
    have hr := finitary_eval right
    cases op with
    | logic op =>
      simp only [Expr.eval]
      exact finitary_both hl hr _ _
    | pipe kind =>
      simp only [Expr.eval]
      exact finitary_bind hr fun f => finitary_bind hl fun v =>
        finitary_pipe program scope kind v f _
    | _ =>
      simp only [Expr.eval]
      exact finitary_bind hl fun _ => finitary_bind hr fun _ => finitary_const _
  | .generate count body p => by
    simp only [Expr.eval]
    refine finitary_bind (finitary_eval count) fun n => ?_
    refine finitary_bind (finitary_eval body) fun v => ?_
    exact finitary_generate p.line (fun f i => finitary_call program scope f _ _) n v
  | .cond condition thenBranch elseBranch p => by
    simp only [Expr.eval]
    refine finitary_bind (finitary_eval condition) fun v => ?_
    refine finitary_bind (finitary_const (.ofExcept p.line v.asBool)) fun b => ?_
    cases b with
    | true => exact finitary_eval thenBranch
    | false => exact finitary_eval elseBranch
  | .not operand _ => by
    simp only [Expr.eval]
    exact finitary_bind (finitary_eval operand) fun _ => finitary_const _
  | .neg operand _ => by
    simp only [Expr.eval]
    exact finitary_bind (finitary_eval operand) fun _ => finitary_const _

theorem finitary_evalSeq : ∀ (es : List Expr) (last : Value),
    Finitary fun invoke => Expr.evalSeq ⟨invoke, program, scope⟩ es last
  | [], last => by
    simp only [Expr.evalSeq]
    exact finitary_const _
  | e :: es, last => by
    simp only [Expr.evalSeq]
    exact finitary_bind (finitary_eval e) fun v => finitary_evalSeq es v

theorem finitary_evalAll : ∀ (es : List Expr) (done : List Value),
    Finitary fun invoke => Expr.evalAll ⟨invoke, program, scope⟩ es done
  | [], done => by
    simp only [Expr.evalAll]
    exact finitary_const _
  | e :: es, done => by
    simp only [Expr.evalAll]
    exact finitary_bind (finitary_eval e) fun v => finitary_evalAll es (v :: done)

theorem finitary_coord : ∀ e : Element, Finitary fun invoke => e.coord ⟨invoke, program, scope⟩
  | .pair x y => by
    simp only [Element.coord]
    exact finitary_both (finitary_eval x) (finitary_eval y) _ _
  | .value e => by
    simp only [Element.coord]
    exact finitary_bind (finitary_eval e) fun _ => finitary_const _

theorem finitary_member : ∀ e : Element, Finitary fun invoke => e.member ⟨invoke, program, scope⟩
  | .pair x y => by
    simp only [Element.member]
    exact finitary_both (finitary_eval x) (finitary_eval y) _ _
  | .value e => by
    simp only [Element.member]
    exact finitary_bind (finitary_eval e) fun _ => finitary_const _

theorem finitary_coords : ∀ (es : List Element) (done : List Coord),
    Finitary fun invoke => Element.coords ⟨invoke, program, scope⟩ es done
  | [], done => by
    simp only [Element.coords]
    exact finitary_const _
  | e :: es, done => by
    simp only [Element.coords]
    exact finitary_bind (finitary_coord e) fun c => finitary_coords es (c :: done)

theorem finitary_members : ∀ (es : List Element) (done : List Geometry),
    Finitary fun invoke => Element.members ⟨invoke, program, scope⟩ es done
  | [], done => by
    simp only [Element.members]
    exact finitary_const _
  | e :: es, done => by
    simp only [Element.members]
    exact finitary_bind (finitary_member e) fun g => finitary_members es (g :: done)

theorem finitary_rings : ∀ (rs : List (List Element)) (done : List (List Coord)),
    Finitary fun invoke => Element.rings ⟨invoke, program, scope⟩ rs done
  | [], done => by
    simp only [Element.rings]
    exact finitary_const _
  | r :: rs, done => by
    simp only [Element.rings]
    exact finitary_bind (finitary_coords r []) fun cs => finitary_rings rs (cs :: done)

theorem finitary_polygons : ∀ (ps : List (List (List Element))) (done : List (List (List Coord))),
    Finitary fun invoke => Element.polygons ⟨invoke, program, scope⟩ ps done
  | [], done => by
    simp only [Element.polygons]
    exact finitary_const _
  | p :: ps, done => by
    simp only [Element.polygons]
    exact finitary_bind (finitary_rings p []) fun rs => finitary_polygons ps (rs :: done)

theorem finitary_body (kind : Geometry.Kind) :
    ∀ b : Body, Finitary fun invoke => b.eval ⟨invoke, program, scope⟩ kind
  | .empty => by
    simp only [Body.eval]
    exact finitary_const _
  | .point x y => by
    simp only [Body.eval]
    exact finitary_both (finitary_eval x) (finitary_eval y) _ _
  | .elements items => by
    cases kind with
    | collection =>
      simp only [Body.eval]
      exact finitary_bind (finitary_members items []) fun _ => finitary_const _
    | _ =>
      simp only [Body.eval]
      exact finitary_bind (finitary_coords items []) fun _ => finitary_const _
  | .rings rs => by
    cases kind <;> simp only [Body.eval] <;>
      exact finitary_bind (finitary_rings rs []) fun _ => finitary_const _
  | .polygons ps => by
    simp only [Body.eval]
    exact finitary_bind (finitary_polygons ps []) fun _ => finitary_const _

end

end Expressions

/-! ## Call trees -/

variable {limit depth : Nat}

/-- A call that ends does so as the evaluator answers it. -/
theorem CallEnds.answeredBy {c : CallRecord} (h : CallEnds limit depth c) :
    c.AnsweredBy (callAt limit (limit - depth)) := by
  induction h with
  | refused hd =>
    rw [Nat.sub_eq_zero_of_le hd]
    exact runOn_callAt_zero limit _ _ _ _
  | @entered depth f args line h h' r calls hd _ hbody ih =>
    have hallowed : limit - depth = limit - (depth + 1) + 1 := by omega
    have hrun := hbody (callAt limit (limit - (depth + 1))) ih
    show (callAt limit (limit - depth) f args line).runOn h = _
    rw [hallowed, runOn_callAt_succ]
    exact congrArg (fun p : Except EvalError Value × Heap => (p.1, p.2.leave h.next p.1)) hrun

/-- Every call ends, as the evaluator answers it. The induction is on how many more calls may be
nested in it. -/
theorem callEnds_of_answeredBy {left : Nat} (hleft : limit - depth = left) {c : CallRecord}
    (hc : c.AnsweredBy (callAt limit left)) : CallEnds limit depth c := by
  induction left generalizing depth c with
  | zero =>
    obtain ⟨f, args, line, h, r, h'⟩ := c
    have hrun : (callAt limit 0 f args line).runOn h = (r, h') := hc
    rw [runOn_callAt_zero] at hrun
    obtain ⟨rfl, rfl⟩ := Prod.mk.inj hrun
    exact .refused (Nat.le_of_sub_eq_zero hleft)
  | succ left ih =>
    obtain ⟨f, args, line, h, r, h'⟩ := c
    have hrun : (callAt limit (left + 1) f args line).runOn h = (r, h') := hc
    rw [runOn_callAt_succ] at hrun
    obtain ⟨rfl, rfl⟩ := Prod.mk.inj hrun
    obtain ⟨calls, hcalls, hbody⟩ := finitary_eval f.lambda.origin.program h.next f.lambda.body
      (callAt limit left) (h.enter f args).2
    exact .entered (by omega) (fun c hc => ih (by omega) (hcalls c hc)) hbody

/-- **Every expression has exactly one outcome**, the one that the evaluator computes. -/
theorem evaluates_iff {program : Nat} {scope : ScopeId} {e : Expr} {h : Heap}
    {r : Except EvalError Value × Heap} :
    Evaluates limit depth program scope e h r ↔
      (e.eval ⟨callAt limit (limit - depth), program, scope⟩).runOn h = r := by
  constructor
  · rintro ⟨calls, hcalls, hsettles⟩
    exact hsettles _ fun c hc => (hcalls c hc).answeredBy
  · rintro rfl
    obtain ⟨calls, hcalls, hsettles⟩ :=
      finitary_eval program scope e (callAt limit (limit - depth)) h
    exact ⟨calls, fun c hc => callEnds_of_answeredBy rfl (hcalls c hc), hsettles⟩

/-- **Evaluation ends**, with a value or an error, for every expression, in every scope of every
heap, and however many calls are in progress. Programs start with none. -/
theorem evaluation_ends (limit depth program : Nat) (scope : ScopeId) (e : Expr) (h : Heap) :
    (∃! r, Evaluates limit depth program scope e h r) ∧
    Evaluates limit depth program scope e h
      ((e.eval ⟨callAt limit (limit - depth), program, scope⟩).runOn h) ∧
    Evaluates limit 0 h.programs scope e { h with programs := h.programs + 1 }
      (h.execute limit e scope) := by
  refine ⟨⟨_, evaluates_iff.2 rfl, fun r hr => (evaluates_iff.1 hr).symm⟩, evaluates_iff.2 rfl, ?_⟩
  exact evaluates_iff.2 rfl

end GeoScript
