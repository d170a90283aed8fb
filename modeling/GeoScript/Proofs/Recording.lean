import GeoScript.Proofs.Interpretation
import GeoScript.Proofs.Transparency

/-!
# Runs on record

**The recorder** walks over expressions as always, and does two things besides. It counts: one
counter is compared with the limit when a closure is called, raised when its body is begun, and
lowered when that has ended, in whatever way. And it keeps a log of all that happens, with what the
counter stands at: when the evaluation of an expression begins and ends, when a function is called
and returns, when a body is entered and left. Values that are handed over stand in the log.

**Theorem (`record_execute`).** The recorder ends as the evaluator does, with the same heap. Its
counter is back at zero. The log is nested like brackets, with the counter at the number of bodies
that are open, and never above the limit. If what a program contains and what the heap binds keep to
given terms, so do all values in the log and all that is bound in the end.
-/

namespace GeoScript

/-! ## What a heap binds -/

namespace Heap

/-- Whatever is bound has the property. -/
def Binds (P : Value → Prop) (h : Heap) : Prop := ∀ id name v, h.local? name id = some v → P v

variable {P : Value → Prop} {h h' : Heap} {id : ScopeId} {name : String} {v : Value}

theorem exists_of_local? (hl : h.local? name id = some v) :
    ∃ s slot, h.scopes[id]? = some s ∧ s.bindings[name]? = some slot ∧ slot.load id = v := by
  rw [local?_eq] at hl
  obtain ⟨slot, hslot, hload⟩ := Option.map_eq_some_iff.1 hl
  obtain ⟨s, hs, hname⟩ := Option.bind_eq_some_iff.1 hslot
  exact ⟨s, slot, hs, hname, hload⟩

theorem local?_of_cleared {s : Option Scope} (hs : h.scopes[id]? = s.map Scope.cleared)
    (name : String) : h.local? name id = none := by
  rw [local?, hs]
  cases s with
  | none => rfl
  | some s => simp [Scope.cleared]

namespace Binds

theorem resolve (hb : h.Binds P) (hv : h.resolve id name = some v) : P v := by
  obtain ⟨a, -, hl⟩ := List.exists_of_findSome?_eq_some hv
  exact hb a name v hl

/-- Scopes that were there, or are without bindings. -/
theorem of_scopes (hb : h.Binds P) (hs : ∀ (id : ScopeId) (s : Scope), h'.scopes[id]? = some s →
    h.scopes[id]? = some s ∨ s.bindings = ∅) : h'.Binds P := by
  intro id name v hl
  obtain ⟨s, slot, hs', hslot, -⟩ := exists_of_local? hl
  rcases hs id s hs' with heq | hempty
  · refine hb id name v ?_
    have hsame : h'.local? name id = h.local? name id := local?_congr (hs'.trans heq.symm)
    rw [← hsame]
    exact hl
  · simp [hempty] at hslot

theorem store (hb : h.Binds P) (hv : P v) : (h.store id name v).Binds P := by
  intro j other u hl
  by_cases hself : j = id ∧ other = name
  · obtain ⟨rfl, rfl⟩ := hself
    obtain ⟨s, -, hs, -⟩ := exists_of_local? hl
    rw [local?_store_self (mem_scopes_store.1 (mem_table_iff.2 ⟨s, hs⟩))] at hl
    rw [← Option.some.inj hl]
    exact hv
  · rw [local?_store_ne fun hj ho => hself ⟨hj, ho⟩] at hl
    exact hb j other u hl

theorem bindAll {bs : List (String × Value)} (hb : h.Binds P) (hv : ∀ b ∈ bs, P b.2) :
    (h.bindAll id bs).Binds P :=
  bindAll_induction (fun _ hg _ v hmem => hg.store (hv (_, v) hmem)) hb

theorem newChild (hb : h.Binds P) (parent : ScopeId) : (h.newChild parent).2.Binds P := by
  refine hb.of_scopes fun i s hs => ?_
  by_cases hi : i = h.next
  · subst hi
    rw [scopes_newChild_self] at hs
    obtain rfl := Option.some.inj hs
    exact Or.inr rfl
  · rw [scopes_newChild_ne hi] at hs
    exact Or.inl hs

theorem enter {f : Closure} {args : List Value} (hb : h.Binds P) (ha : ∀ v ∈ args, P v) :
    (h.enter f args).2.Binds P := by
  rw [enter_eq]
  exact (hb.newChild f.scope).bindAll fun b hmem => ha b.2 (List.of_mem_zip hmem).2

theorem release (hb : h.Binds P) (frame : ScopeId) : (h.release frame).Binds P := by
  refine hb.of_scopes fun i s hs => ?_
  by_cases hi : i = frame
  · subst hi
    rw [scopes_release_self] at hs
    split_ifs at hs
    · obtain ⟨t, -, rfl⟩ := Option.map_eq_some_iff.1 hs
      exact Or.inr rfl
    · exact Or.inl hs
  · rw [scopes_release_ne hi] at hs
    exact Or.inl hs

theorem leave (hb : h.Binds P) (frame : ScopeId) (r : Except EvalError Value) :
    (h.leave frame r).Binds P := by
  unfold Heap.leave
  split
  · exact hb
  · exact hb.release frame

theorem random (hb : h.Binds P) : h.random.2.Binds P := by
  obtain ⟨draws, hr⟩ := random_eq h
  rw [hr]
  exact hb

theorem hold (hb : h.Binds P) (id : ScopeId) : (h.hold id).Binds P := hb

theorem remember {r : Except EvalError Value} (hb : h.Binds P) (hr : ∀ v, r = .ok v → P v) :
    (h.remember id r).Binds P := by
  cases r with
  | error e => exact hb
  | ok v => exact hb.store (hr v rfl)

theorem collect (hb : h.Binds P) (root : ScopeId) : (h.collect root).Binds P := by
  refine hb.of_scopes fun i s hs => ?_
  rcases scopes_collect_cases h root i with heq | ⟨hnone, -⟩
  · exact Or.inl (heq ▸ hs)
  · rw [hnone] at hs
    cases hs

end Binds

/-- A fresh root binds what the libraries export, or nothing. -/
theorem binds_start (hP : ∀ b ∈ Library.standardBindings, P b.2) (libraries : Bool)
    (draws : Draws) : (Heap.start libraries draws).2.Binds P := by
  have hroot : (Heap.empty draws).newRoot.2.Binds P := by
    intro id name v hl
    obtain ⟨s, slot, hs, hslot, -⟩ := exists_of_local? hl
    obtain ⟨-, rfl⟩ := eq_of_scopes_newRoot hs
    simp at hslot
  cases libraries with
  | false => exact hroot.hold 0
  | true =>
    have hbound :
        ((bindAll 0 Library.standardBindings (Heap.empty draws).newRoot.2).hold 0).Binds P :=
      (hroot.bindAll hP).hold 0
    exact hbound

end Heap

/-! ## Closures and values that keep to the terms -/

/-- The body keeps to the terms of its program, and stands where they allow it. -/
def Closure.Meets (T : Nat → Terms) (c : Closure) : Prop :=
  (T c.lambda.origin.program).literal c.lambda.origin.position ∧
    c.lambda.body.Meets (T c.lambda.origin.program)

/-- Closures keep to the terms, and geometries are filled if no program may have empty lists. -/
def Value.Meets (T : Nat → Terms) : Value → Prop
  | .closure c => c.Meets T
  | v => (∀ program, ¬ (T program).hollow) → v.Filled

/-! ## The log -/

/-- What an event is about. -/
inductive Moment where
  /-- The evaluation of an expression. -/
  | begins | ends
  /-- The call of a closure or of a library function. -/
  | calls | returns
  /-- The body of a closure. -/
  | enters | leaves
  deriving Repr, DecidableEq, Inhabited

/-- Something that happens in a run. -/
structure Event where
  moment : Moment
  /-- What the counter stands at. -/
  counter : Nat
  /-- What is handed over: arguments, or the result if there is one. -/
  values : List Value
  deriving Inhabited

/-- The events are nested like brackets. The counter is the same when an evaluation or a call ends
as it was at its beginning. It is one higher inside a body, which is entered only below the
limit. -/
inductive Nested (limit : Nat) : Nat → List Event → Prop
  | nil {k : Nat} : Nested limit k []
  | evaluation {k : Nat} {inner rest : List Event} {result : List Value} : Nested limit k inner →
    Nested limit k rest →
    Nested limit k (⟨.begins, k, []⟩ :: (inner ++ ⟨.ends, k, result⟩ :: rest))
  | call {k : Nat} {inner rest : List Event} {args result : List Value} : Nested limit k inner →
    Nested limit k rest →
    Nested limit k (⟨.calls, k, args⟩ :: (inner ++ ⟨.returns, k, result⟩ :: rest))
  | body {k : Nat} {inner rest : List Event} : k < limit → Nested limit (k + 1) inner →
    Nested limit k rest →
    Nested limit k (⟨.enters, k + 1, []⟩ :: (inner ++ ⟨.leaves, k, []⟩ :: rest))

theorem Nested.append {limit k : Nat} {a b : List Event} (ha : Nested limit k a)
    (hb : Nested limit k b) : Nested limit k (a ++ b) := by
  induction ha with
  | nil => exact hb
  | evaluation hinner _ _ ih =>
    simp only [List.cons_append, List.append_assoc]
    exact .evaluation hinner (ih hb)
  | call hinner _ _ ih =>
    simp only [List.cons_append, List.append_assoc]
    exact .call hinner (ih hb)
  | body hk hinner _ _ ih =>
    simp only [List.cons_append, List.append_assoc]
    exact .body hk hinner (ih hb)

/-- How many bodies have been entered. -/
def entered (log : List Event) : Nat := log.countP (·.moment = .enters)

/-- How many bodies have been left. -/
def left (log : List Event) : Nat := log.countP (·.moment = .leaves)

theorem entered_cons (e : Event) (log : List Event) :
    entered (e :: log) = entered [e] + entered log := by
  simp only [entered, List.countP_cons, List.countP_nil]
  omega

theorem left_cons (e : Event) (log : List Event) : left (e :: log) = left [e] + left log := by
  simp only [left, List.countP_cons, List.countP_nil]
  omega

/-- From `k` on, the counter goes up and down with every body, and stays within the limit. -/
def Tracked (limit : Nat) : Nat → List Event → Prop
  | _, [] => True
  | k, e :: es =>
    k + entered [e] = e.counter + left [e] ∧ e.counter ≤ limit ∧ Tracked limit e.counter es

theorem Nested.tracked {limit k : Nat} {log : List Event} (h : Nested limit k log)
    (hk : k ≤ limit) {rest : List Event} (hrest : Tracked limit k rest) :
    Tracked limit k (log ++ rest) := by
  induction h generalizing rest with
  | nil => exact hrest
  | evaluation _ _ ih₁ ih₂ | call _ _ ih₁ ih₂ =>
    simp only [List.cons_append, List.append_assoc]
    exact ⟨rfl, hk, ih₁ hk ⟨rfl, hk, ih₂ hk hrest⟩⟩
  | body hlt _ _ ih₁ ih₂ =>
    simp only [List.cons_append, List.append_assoc]
    exact ⟨rfl, hlt, ih₁ hlt ⟨rfl, hk, ih₂ hk hrest⟩⟩

/-- The counter is what it was, plus the bodies that were entered, less those that were left. -/
theorem Tracked.counter_eq {limit k : Nat} {before after : List Event} {e : Event}
    (h : Tracked limit k (before ++ e :: after)) :
    k + entered (before ++ [e]) = e.counter + left (before ++ [e]) ∧ e.counter ≤ limit := by
  induction before generalizing k with
  | nil => exact ⟨h.1, h.2.1⟩
  | cons d before ih =>
    obtain ⟨hd, -, hrest⟩ := h
    obtain ⟨heq, hle⟩ := ih hrest
    rw [List.cons_append, entered_cons, left_cons]
    exact ⟨by omega, hle⟩

/-! ## The recorder -/

/-- What the recorder works on. -/
structure Recorder where
  heap : Heap
  counter : Nat
  log : List Event
  deriving Inhabited

namespace Recorder

/-- Puts an event into the log. -/
def note (moment : Moment) (values : List Value) (s : Recorder) : Recorder :=
  { s with log := s.log ++ [⟨moment, s.counter, values⟩] }

/-- A fresh frame, with the counter raised. -/
def enter (f : Closure) (args : List Value) (s : Recorder) : ScopeId × Recorder :=
  let (frame, heap) := s.heap.enter f args
  (frame, note .enters [] ⟨heap, s.counter + 1, s.log⟩)

/-- Gives a frame back, with the counter lowered. -/
def leave (frame : ScopeId) (result : Except EvalError Value) (s : Recorder) : Recorder :=
  note .leaves [] ⟨s.heap.leave frame result, s.counter - 1, s.log⟩

/-- A step on the heap. -/
def lift {α : Type} (m : Effect Heap α) : Effect Recorder α := do
  .ofOutcome (← .change fun s => ((m.runOn s.heap).1, { s with heap := (m.runOn s.heap).2 }))

/-- The result of a step, if there is one. -/
def results : Except EvalError Value → List Value
  | .ok v => [v]
  | .error _ => []

/-- A step with an event before it and one after it, however it ends. -/
def around (first last : Moment) (args : List Value) (m : Effect Recorder Value) :
    Effect Recorder Value := do
  modify (note first args)
  let result ← Effect.outcome m
  modify (note last (results result))
  .ofOutcome result

@[simp] theorem runOn_lift {α : Type} (m : Effect Heap α) (s : Recorder) :
    (lift m).runOn s = ((m.runOn s.heap).1, { s with heap := (m.runOn s.heap).2 }) := by
  rw [lift, Effect.runOn_bind, Effect.runOn_change]
  exact Effect.runOn_ofOutcome _ _

theorem runOn_around (first last : Moment) (args : List Value) (m : Effect Recorder Value)
    (s : Recorder) :
    (around first last args m).runOn s =
      let r := m.runOn (s.note first args)
      (r.1, r.2.note last (results r.1)) := by
  rw [around, Effect.runOn_bind, Effect.runOn_modify]
  dsimp only
  rw [Effect.runOn_bind, Effect.runOn_outcome]
  dsimp only
  rw [Effect.runOn_bind, Effect.runOn_modify]
  exact Effect.runOn_ofOutcome _ _

/-- The machine that records what another one does, with calls of its own. -/
def machine (M : Machine Heap) (invoke : Closure → List Value → Nat → Effect Recorder Value) :
    Machine Recorder where
  resolve name line := lift (M.resolve name line)
  declare name v := lift (M.declare name v)
  close := M.close
  invoke := invoke
  random := lift M.random
  watch := around .begins .ends []
  watchCall := around .calls .returns

/-- Calls a closure if the counter is below the limit. The recursion is on `fuel`, which makes no
difference from the limit on. -/
def call (limit : Nat) : Nat → Closure → List Value → Nat → Effect Recorder Value
  | 0, _, _, line => .fail (.recursionLimit limit) line
  | fuel + 1, f, args, line => do
    if (← get).counter < limit then
      let frame ← Effect.change (enter f args)
      let result ← Effect.outcome (f.lambda.body.interpret (machine
        (Context.machine ⟨callAt limit fuel, f.lambda.origin.program, frame⟩) (call limit fuel)))
      modify (leave frame result)
      .ofOutcome result
    else
      .fail (.recursionLimit limit) line

variable {limit fuel : Nat} {f : Closure} {args : List Value} {line : Nat} {s : Recorder}

theorem runOn_call_refused (h : limit ≤ s.counter) :
    (call limit fuel f args line).runOn s = (.error ⟨.recursionLimit limit, line⟩, s) := by
  cases fuel with
  | zero => rfl
  | succ fuel =>
    rw [call, Effect.runOn_bind, Effect.runOn_get]
    dsimp only
    rw [if_neg (Nat.not_lt.2 h), Effect.runOn_fail]

theorem runOn_call_entered (h : s.counter < limit) :
    (call limit (fuel + 1) f args line).runOn s =
      let ctx : Context := ⟨callAt limit fuel, f.lambda.origin.program, s.heap.next⟩
      let r := (f.lambda.body.interpret (machine ctx.machine (call limit fuel))).runOn
        (s.enter f args).2
      (r.1, r.2.leave s.heap.next r.1) := by
  rw [call, Effect.runOn_bind, Effect.runOn_get]
  dsimp only
  rw [if_pos h, Effect.runOn_bind, Effect.runOn_change]
  dsimp only
  rw [Effect.runOn_bind, Effect.runOn_outcome]
  dsimp only
  rw [Effect.runOn_bind, Effect.runOn_modify]
  exact Effect.runOn_ofOutcome _ _

end Recorder

/-- Evaluates a program on record. -/
def Heap.record (limit fuel : Nat) (program : Expr) (scope : ScopeId) (h : Heap) :
    Except EvalError Value × Recorder :=
  (program.interpret (Recorder.machine
    (Context.machine ⟨callAt limit fuel, h.programs, scope⟩) (Recorder.call limit fuel))).runOn
      ⟨{ h with programs := h.programs + 1 }, 0, []⟩

/-! ## The recorder beside the evaluator -/

/-- The evaluator beside the recorder, while `k` bodies are in progress. Worlds are logs. -/
def recording (limit : Nat) (T : Nat → Terms) (k : Nat) : Correspondence Heap Recorder where
  World := List Event
  Le w w' := w <+: w'
  trans := List.IsPrefix.trans
  Ran w w' := ∃ events, w' = w ++ events ∧ Nested limit k events ∧
    ∀ e ∈ events, ∀ v ∈ e.values, v.Meets T
  ran_refl w := ⟨[], by simp, .nil, by simp⟩
  ran_trans := by
    rintro _ _ _ ⟨a, rfl, ha, hav⟩ ⟨b, rfl, hb, hbv⟩
    exact ⟨a ++ b, List.append_assoc .., ha.append hb, List.forall_mem_append.2 ⟨hav, hbv⟩⟩
  le_of_ran := by
    rintro _ _ ⟨a, rfl, -⟩
    exact List.prefix_append ..
  Holds w h s := s = ⟨h, k, w⟩ ∧ h.Binds (Value.Meets T)
  Closures _ c c' := c' = c ∧ c.Meets T
  mono _ hc := hc
  beq := by
    rintro _ c _ d _ ⟨rfl, -⟩ ⟨rfl, -⟩
    rfl
  Lines l l' := l' = l
  Cut _ := False
  strict := ∀ program, ¬ (T program).hollow

section

open Correspondence

variable {limit k : Nat} {T : Nat → Terms} {w : List Event} {v v' : Value}

theorem values_recording :
    (recording limit T k).Values w v v' ↔ v' = v ∧ v.Meets T := by
  constructor
  · intro hv
    cases hv with
    | closure hc => exact ⟨congrArg Value.closure hc.1, hc.2⟩
    | plain hplain hfilled =>
      refine ⟨rfl, ?_⟩
      cases v with
      | closure => cases hplain
      | _ => exact hfilled
  · rintro ⟨rfl, hv⟩
    cases v' with
    | closure c => exact .closure ⟨rfl, hv⟩
    | _ => exact .plain rfl hv

theorem allValues_recording {vs vs' : List Value} (h : (recording limit T k).AllValues w vs vs') :
    vs' = vs ∧ ∀ v ∈ vs, v.Meets T := by
  induction h with
  | nil => exact ⟨rfl, by simp⟩
  | cons hv _ ih =>
    obtain ⟨rfl, hv⟩ := values_recording.1 hv
    exact ⟨by rw [ih.1], List.forall_mem_cons.2 ⟨hv, ih.2⟩⟩

/-- A step on the heap beside the same step of the recorder, which logs nothing. -/
theorem together_lift {α : Type} {P : α → Prop} {m : Effect Heap α}
    (hm : ∀ h, h.Binds (Value.Meets T) → (m.runOn h).2.Binds (Value.Meets T) ∧
      ∀ a, (m.runOn h).1 = .ok a → P a) :
    (recording limit T k).Together w ((recording limit T k).Same P) m (Recorder.lift m) := by
  rintro w₁ - h _ ⟨rfl, hb⟩
  obtain ⟨hb', hP⟩ := hm h hb
  rw [Recorder.runOn_lift]
  rcases hrun : m.runOn h with ⟨r, h'⟩
  rw [hrun] at hb' hP
  cases r with
  | ok a =>
    exact .ok ((recording limit T k).ran_refl w₁) ⟨rfl, hb'⟩ ⟨rfl, hP a rfl⟩
  | error e => exact .error ((recording limit T k).ran_refl w₁) ⟨rfl, hb'⟩ rfl rfl

/-- What was logged between two events, and the events. -/
theorem ran_between {j : Nat} {w₂ : List Event} {a b : Event}
    (hnested : ∀ events, Nested limit j events → Nested limit k (a :: (events ++ [b])))
    (ha : ∀ v ∈ a.values, v.Meets T) (hb : ∀ v ∈ b.values, v.Meets T)
    (h : (recording limit T j).Ran (w ++ [a]) w₂) :
    (recording limit T k).Ran w (w₂ ++ [b]) := by
  obtain ⟨events, rfl, hevents, hvalues⟩ := h
  have hlog : w ++ [a] ++ events ++ [b] = w ++ a :: (events ++ [b]) := by simp
  refine ⟨a :: (events ++ [b]), hlog, hnested events hevents, ?_⟩
  exact List.forall_mem_cons.2
    ⟨ha, List.forall_mem_append.2 ⟨hvalues, List.forall_mem_singleton.2 hb⟩⟩

/-- A step that is logged on one side, if its two events go around what it logs itself. -/
theorem together_around {first last : Moment} {args : List Value} {m : Effect Heap Value}
    {n : Effect Recorder Value} (ha : ∀ v ∈ args, v.Meets T)
    (hnested : ∀ inner result, Nested limit k inner →
      Nested limit k (⟨first, k, args⟩ :: (inner ++ [⟨last, k, result⟩])))
    (hm : (recording limit T k).Together w (recording limit T k).Values m n) :
    (recording limit T k).Together w (recording limit T k).Values m
      (Recorder.around first last args n) := by
  intro (w₁ : List Event) h₁ h s hs
  obtain ⟨rfl, hb⟩ := hs
  have hends := hm (w₁ ++ [⟨first, k, args⟩]) (h₁.trans (List.prefix_append ..)) h
    ⟨h, k, w₁ ++ [⟨first, k, args⟩]⟩ ⟨rfl, hb⟩
  rw [Recorder.runOn_around]
  dsimp only [Recorder.note]
  generalize m.runOn h = r at hends ⊢
  generalize n.runOn _ = r' at hends ⊢
  cases hends with
  | ok h₂ hs hq =>
    obtain ⟨rfl, hb'⟩ := hs
    obtain ⟨rfl, hv⟩ := values_recording.1 hq
    have hresult : ∀ u ∈ Recorder.results (.ok _), u.Meets T := List.forall_mem_singleton.2 hv
    exact .ok (ran_between (fun _ => hnested _ _) ha hresult h₂) ⟨rfl, hb'⟩
      (values_recording.2 ⟨rfl, hv⟩)
  | @error _ e _ _ _ h₂ hs hfault hlines =>
    obtain ⟨rfl, hb'⟩ := hs
    have hresult : ∀ u ∈ Recorder.results (.error e), u.Meets T := by simp [Recorder.results]
    exact .error (ran_between (fun _ => hnested _ _) ha hresult h₂) ⟨rfl, hb'⟩ hfault hlines
  | cut hcut => exact hcut.elim

/-- Calls of closures that keep to the terms are recorded, while `k` bodies are in progress and so
many more calls may be nested. -/
def CallsRecorded (limit : Nat) (T : Nat → Terms) (k allowed fuel : Nat) : Prop :=
  ∀ (w : List Event) (c : Closure) (vs : List Value) (l : Nat), c.Meets T →
    (∀ v ∈ vs, v.Meets T) → (recording limit T k).Together w (recording limit T k).Values
      (callAt limit allowed c vs l) (Recorder.call limit fuel c vs l)

/-- The machine of a context beside the one that records it. -/
theorem serves_recording {allowed fuel : Nat} (program : Nat) (scope : ScopeId)
    (hcalls : CallsRecorded limit T k allowed fuel) (w : List Event) :
    (recording limit T k).Serves w (T program) id
      (Context.machine ⟨callAt limit allowed, program, scope⟩)
      (Recorder.machine (Context.machine ⟨callAt limit fuel, program, scope⟩)
        (Recorder.call limit fuel)) where
  lines _ := rfl
  hollow hs := hs program
  resolve := by
    intro name _ l _ hl
    subst hl
    let ctx : Context := ⟨callAt limit allowed, program, scope⟩
    have hvalue : ∀ h, h.Binds (Value.Meets T) →
        ((ctx.resolve name l).runOn h).2.Binds (Value.Meets T) ∧
          ∀ v, ((ctx.resolve name l).runOn h).1 = .ok v → v.Meets T := by
      intro h hb
      rw [Context.runOn_resolve]
      cases hr : h.resolve ctx.scope name with
      | none => exact ⟨hb, fun v hv => by cases hv⟩
      | some u => exact ⟨hb, fun v hv => Except.ok.inj hv ▸ hb.resolve hr⟩
    exact (together_lift hvalue).imp fun _ _ _ h => values_recording.2 h
  declare := by
    intro w₁ v v' name _ hv
    obtain ⟨rfl, hv⟩ := values_recording.1 hv
    let ctx : Context := ⟨callAt limit allowed, program, scope⟩
    have hvalue : ∀ h, h.Binds (Value.Meets T) →
        ((ctx.declare name v').runOn h).2.Binds (Value.Meets T) ∧
          ∀ u, ((ctx.declare name v').runOn h).1 = .ok u → u.Meets T := by
      intro h hb
      rw [Context.runOn_declare]
      exact ⟨hb.store hv, fun u hu => Except.ok.inj hu ▸ fun _ => trivial⟩
    exact (together_lift hvalue).imp fun _ _ _ h => values_recording.2 h
  close params hp hb := by
    rw [Expr.placed_id]
    exact ⟨rfl, hp, hb⟩
  invoke := by
    intro w₁ c c' vs vs' l _ _ hc hvs hl
    subst hl
    obtain ⟨rfl, hc⟩ := hc
    obtain ⟨rfl, hvs⟩ := allValues_recording hvs
    exact hcalls w₁ _ _ _ hc hvs
  random := by
    refine (together_lift (P := fun _ => True) fun h hb => ?_)
    exact ⟨hb.random, fun _ _ => trivial⟩
  watch := by
    intro w₁ m n _ hm
    refine together_around (by simp) (fun inner result hinner => ?_) hm
    exact .evaluation hinner .nil
  watchCall := by
    intro w₁ vs vs' m n _ hvs hm
    obtain ⟨rfl, hvs⟩ := allValues_recording hvs
    refine together_around hvs (fun inner result hinner => ?_) hm
    exact .call hinner .nil

/-- **Calls are recorded faithfully**, and the counter alone decides which are refused. The
induction is on how many more calls may be nested. -/
theorem callsRecorded {allowed fuel : Nat} (hlimit : limit = k + allowed) (hfuel : allowed ≤ fuel) :
    CallsRecorded limit T k allowed fuel := by
  induction allowed generalizing k fuel with
  | zero =>
    rintro w c vs l - - w₁ - h _ ⟨rfl, hb⟩
    rw [runOn_callAt_zero, Recorder.runOn_call_refused (by simp [hlimit])]
    exact .error ((recording limit T k).ran_refl w₁) ⟨rfl, hb⟩ rfl rfl
  | succ allowed ih =>
    intro w c vs l hc hvs (w₁ : List Event) _ h s hs
    obtain ⟨rfl, hb⟩ := hs
    obtain ⟨fuel, rfl⟩ : ∃ n, fuel = n + 1 := ⟨fuel - 1, by omega⟩
    have hk : k < limit := by omega
    have hcalls : CallsRecorded limit T (k + 1) allowed fuel := ih (by omega) (by omega)
    have hserves := serves_recording c.lambda.origin.program h.next hcalls
      (w₁ ++ [⟨.enters, k + 1, []⟩])
    have hbody := hserves.together_interpret c.lambda.body _ hc.2
    rw [Expr.placed_id, interpret_machine] at hbody
    have hends := hbody _ (Correspondence.refl _ _) (h.enter c vs).2
      ⟨(h.enter c vs).2, k + 1, w₁ ++ [⟨.enters, k + 1, []⟩]⟩ ⟨rfl, hb.enter hvs⟩
    rw [runOn_callAt_succ, Recorder.runOn_call_entered hk]
    dsimp only [Recorder.enter, Recorder.leave, Recorder.note]
    generalize Effect.runOn _ (h.enter c vs).2 = r at hends ⊢
    generalize Effect.runOn _ _ = r' at hends ⊢
    have hran : ∀ w₂ : List Event,
        (recording limit T (k + 1)).Ran (w₁ ++ [⟨.enters, k + 1, []⟩]) w₂ →
        (recording limit T k).Ran w₁ (w₂ ++ [⟨.leaves, k, []⟩]) :=
      fun w₂ => ran_between (fun _ hevents => .body hk hevents .nil) (by simp) (by simp)
    cases hends with
    | ok h₂ hs hq =>
      obtain ⟨rfl, hb'⟩ := hs
      obtain ⟨rfl, hv⟩ := values_recording.1 hq
      exact .ok (hran _ h₂) ⟨rfl, hb'.leave _ _⟩ (values_recording.2 ⟨rfl, hv⟩)
    | @error _ e e' _ _ h₂ hs hfault hlines =>
      obtain ⟨rfl, hb'⟩ := hs
      exact .error (hran _ h₂) ⟨rfl, hb'.leave _ (.error e)⟩ hfault hlines
    | cut hcut => exact hcut.elim

end

/-- **Runs are recorded faithfully.** -/
theorem record_execute {T : Nat → Terms} {limit fuel : Nat} {program : Expr} {h : Heap}
    (hfuel : limit ≤ fuel) (hprogram : program.Meets (T h.programs))
    (hb : h.Binds (Value.Meets T)) (scope : ScopeId) :
    ∃ log, h.record limit fuel program scope =
        ((h.execute limit program scope).1, ⟨(h.execute limit program scope).2, 0, log⟩) ∧
      Nested limit 0 log ∧ (∀ e ∈ log, ∀ v ∈ e.values, v.Meets T) ∧
      (h.execute limit program scope).2.Binds (Value.Meets T) ∧
      ∀ v, (h.execute limit program scope).1 = .ok v → v.Meets T := by
  have hcalls : CallsRecorded limit T 0 limit fuel := callsRecorded (Nat.zero_add limit).symm hfuel
  have hserves := serves_recording h.programs scope hcalls []
  have hrun := hserves.together_interpret program _ hprogram
  rw [Expr.placed_id, interpret_machine] at hrun
  have hends := hrun _ (Correspondence.refl _ _) { h with programs := h.programs + 1 }
    ⟨{ h with programs := h.programs + 1 }, 0, []⟩ ⟨rfl, hb⟩
  have hexecute : h.execute limit program scope = Effect.runOn
      (program.eval ⟨callAt limit limit, h.programs, scope⟩)
      { h with programs := h.programs + 1 } := rfl
  rw [hexecute, Heap.record]
  generalize Effect.runOn _ { h with programs := h.programs + 1 } = r at hends ⊢
  generalize Effect.runOn _ _ = r' at hends ⊢
  cases hends with
  | ok h₂ hs hq =>
    obtain ⟨rfl, hb'⟩ := hs
    obtain ⟨rfl, hv⟩ := values_recording.1 hq
    obtain ⟨log, hlog, hnested, hvalues⟩ := h₂
    exact ⟨log, by rw [hlog]; rfl, hnested, hvalues, hb', fun u hu => Except.ok.inj hu ▸ hv⟩
  | @error _ e e' _ _ h₂ hs hfault hlines =>
    obtain ⟨rfl, hb'⟩ := hs
    obtain ⟨log, hlog, hnested, hvalues⟩ := h₂
    have herror : e' = e := EvalError.ext hfault hlines
    exact ⟨log, by rw [herror, hlog]; rfl, hnested, hvalues, hb', fun u hu => by cases hu⟩
  | cut hcut => exact hcut.elim

end GeoScript
