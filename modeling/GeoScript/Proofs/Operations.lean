import GeoScript.Eval

/-!
# The operations one by one

**Steps.** `runOn` gives the outcome of a step and the state it leaves; sequencing, failing and
changing the state are described by what they do to these two.

**Heaps.** What every operation of a heap does to the scope of a given number. Everything later on
reads heaps through `scopes[id]?`; the operations are opened here and nowhere else.

**Contexts.** Reading a name leaves the heap as it is; binding one is one operation of the heap; a
call enters a frame, evaluates a body there and leaves it.
-/

namespace GeoScript

/-! ## Outcomes of steps -/

namespace Effect

variable {σ α β : Type}

/-- The outcome of a step from a state, and the state it leaves. -/
def runOn (m : Effect σ α) (s : σ) : Except EvalError α × σ := m.run.run s

@[simp] theorem runOn_pure (a : α) (s : σ) : (pure a : Effect σ α).runOn s = (.ok a, s) := rfl

@[simp] theorem runOn_fail (fault : EvalFault) (line : Nat) (s : σ) :
    (fail fault line : Effect σ α).runOn s = (.error ⟨fault, line⟩, s) := rfl

@[simp] theorem runOn_get (s : σ) : (get : Effect σ σ).runOn s = (.ok s, s) := rfl

@[simp] theorem runOn_modify (f : σ → σ) (s : σ) :
    (modify f : Effect σ PUnit).runOn s = (.ok ⟨⟩, f s) := rfl

@[simp] theorem runOn_change (f : σ → α × σ) (s : σ) :
    (change f : Effect σ α).runOn s = (.ok (f s).1, (f s).2) := rfl

@[simp] theorem runOn_outcome (m : Effect σ α) (s : σ) :
    (outcome m).runOn s = (.ok (m.runOn s).1, (m.runOn s).2) := rfl

@[simp] theorem runOn_ofOutcome (r : Except EvalError α) (s : σ) :
    (ofOutcome r : Effect σ α).runOn s = (r, s) := by
  cases r <;> rfl

theorem runOn_ofExcept (line : Nat) (r : Except EvalFault α) (s : σ) :
    (ofExcept line r : Effect σ α).runOn s = (r.mapError (⟨·, line⟩), s) := by
  cases r <;> rfl

theorem runOn_bind (m : Effect σ α) (f : α → Effect σ β) (s : σ) :
    (m >>= f).runOn s = match m.runOn s with
      | (.ok a, t) => (f a).runOn t
      | (.error e, t) => (.error e, t) := by
  simp only [runOn, bind, ExceptT.run, ExceptT.bind, ExceptT.mk, StateT.bind, StateT.run]
  rcases m s with ⟨_ | _, _⟩ <;> rfl

theorem runOn_bind_ok {m : Effect σ α} {s t : σ} {a : α} (h : m.runOn s = (.ok a, t))
    (f : α → Effect σ β) : (m >>= f).runOn s = (f a).runOn t := by
  rw [runOn_bind, h]

theorem runOn_bind_error {m : Effect σ α} {s t : σ} {e : EvalError}
    (h : m.runOn s = (.error e, t)) (f : α → Effect σ β) : (m >>= f).runOn s = (.error e, t) := by
  rw [runOn_bind, h]

end Effect

/-! ## Heaps -/

namespace Heap

variable {h h' : Heap} {id j frame : ScopeId} {name : String} {v : Value}

/-- What a scope itself binds to a name. -/
def slot? (h : Heap) (id : ScopeId) (name : String) : Option Slot :=
  h.scopes[id]?.bind fun s => s.bindings[name]?

theorem local?_eq (h : Heap) (name : String) (id : ScopeId) :
    h.local? name id = (h.slot? id name).map (Slot.load id) := rfl

theorem slot?_congr (hs : h'.scopes[id]? = h.scopes[id]?) : h'.slot? id name = h.slot? id name := by
  rw [slot?, slot?, hs]

/-! ### Binding a name -/

/-- The slot that a value is stored as. -/
def slotFor (h : Heap) (id : ScopeId) (v : Value) : Slot :=
  if h.reclaims then Slot.store id v else .value v

/-- A slot gives back the value it was made for. -/
theorem load_slotFor (h : Heap) (id : ScopeId) (v : Value) : (h.slotFor id v).load id = v := by
  unfold slotFor
  split
  · cases v with
    | closure c =>
      simp only [Slot.store]
      split
      · next heq => rw [Slot.load, ← heq]
      · rfl
    | _ => rfl
  · rfl

@[simp] theorem next_store : (h.store id name v).next = h.next := rfl

@[simp] theorem held_store : (h.store id name v).held = h.held := rfl

@[simp] theorem programs_store : (h.store id name v).programs = h.programs := rfl

@[simp] theorem draws_store : (h.store id name v).draws = h.draws := rfl

@[simp] theorem reclaims_store : (h.store id name v).reclaims = h.reclaims := rfl

theorem scopes_store_self : (h.store id name v).scopes[id]? = h.scopes[id]?.map fun s =>
    { s with bindings := s.bindings.insert name (h.slotFor id v) } := by
  simp [store, slotFor]

theorem scopes_store_ne (hj : j ≠ id) : (h.store id name v).scopes[j]? = h.scopes[j]? := by
  rw [store, Std.TreeMap.getElem?_modify, if_neg]
  simpa using Ne.symm hj

theorem mem_scopes_store : j ∈ (h.store id name v).scopes ↔ j ∈ h.scopes := by
  rw [store, Std.TreeMap.mem_modify]

/-- Binding a name changes no other slot. -/
theorem slot?_store_ne {other : String} (hne : name ≠ other) :
    (h.store id name v).slot? id other = h.slot? id other := by
  rw [slot?, slot?, scopes_store_self]
  cases h.scopes[id]? with
  | none => rfl
  | some s => simp [Std.TreeMap.getElem?_insert, hne]

theorem slot?_store_self {s : Scope} (hs : h.scopes[id]? = some s) :
    (h.store id name v).slot? id name = some (h.slotFor id v) := by
  rw [slot?, scopes_store_self, hs]
  simp

theorem ancestors_store : (h.store id name v).scopes[j]?.map Scope.ancestors =
    h.scopes[j]?.map Scope.ancestors := by
  by_cases hj : j = id
  · subst hj
    rw [scopes_store_self]
    cases h.scopes[j]? <;> rfl
  · rw [scopes_store_ne hj]

/-! ### Random numbers -/

/-- Drawing a number changes the draws only. -/
theorem random_eq (h : Heap) : ∃ draws, h.random.2 = { h with draws } := ⟨_, rfl⟩

/-- Heaps with the same draws draw the same number, and have the same draws left. -/
theorem random_congr {h k : Heap} (hs : k.draws = h.draws) :
    k.random.1 = h.random.1 ∧ k.random.2.draws = h.random.2.draws := by
  unfold random
  rw [hs]
  exact ⟨rfl, rfl⟩

/-! ### New scopes -/

@[simp] theorem newChild_fst (h : Heap) (id : ScopeId) : (h.newChild id).1 = h.next := rfl

@[simp] theorem next_newChild (h : Heap) (id : ScopeId) : (h.newChild id).2.next = h.next + 1 := rfl

theorem scopes_add_self (h : Heap) (outer : List ScopeId) :
    (h.add outer).2.scopes[h.next]? = some ⟨∅, outer⟩ := by
  simp [add]

theorem scopes_add_ne {outer : List ScopeId} (hj : j ≠ h.next) :
    (h.add outer).2.scopes[j]? = h.scopes[j]? := by
  rw [add, Std.TreeMap.getElem?_insert, if_neg]
  simpa using Ne.symm hj

/-- A fresh root is the only scope of its heap, and empty. -/
theorem eq_of_scopes_newRoot {draws : Draws} {s : Scope}
    (hs : (Heap.empty draws).newRoot.2.scopes[id]? = some s) : id = 0 ∧ s = ⟨∅, []⟩ := by
  by_cases hi : id = (Heap.empty draws).next
  · rw [hi, newRoot, scopes_add_self] at hs
    exact ⟨hi, (Option.some.inj hs).symm⟩
  · rw [newRoot, scopes_add_ne hi] at hs
    simp [Heap.empty] at hs

theorem scopes_newChild_self (h : Heap) (id : ScopeId) :
    (h.newChild id).2.scopes[h.next]? = some ⟨∅, h.chain id⟩ :=
  scopes_add_self h (h.chain id)

theorem scopes_newChild_ne (hj : j ≠ h.next) :
    (h.newChild id).2.scopes[j]? = h.scopes[j]? :=
  scopes_add_ne hj

theorem chain_congr (hs : h'.scopes[id]?.map Scope.ancestors = h.scopes[id]?.map Scope.ancestors) :
    h'.chain id = h.chain id := by
  rw [chain, chain, hs]

/-! ### Frames -/

/-- Binds parameters to arguments in a frame. -/
def bindAll (frame : ScopeId) (bindings : List (String × Value)) (h : Heap) : Heap :=
  bindings.foldl (fun h (name, v) => h.store frame name v) h

theorem enter_eq (f : Closure) (args : List Value) (h : Heap) :
    h.enter f args =
      (h.next, bindAll h.next (f.lambda.params.zip args) (h.newChild f.scope).2) := rfl

/-- Whatever binding one name keeps, binding several keeps. -/
theorem bindAll_induction {P : Heap → Prop} {bs : List (String × Value)}
    (hstep : ∀ g, P g → ∀ name v, (name, v) ∈ bs → P (g.store frame name v)) (hh : P h) :
    P (bindAll frame bs h) := by
  induction bs generalizing h with
  | nil => exact hh
  | cons b bs ih =>
    refine ih (fun g hg name v hmem => hstep g hg name v (List.mem_cons_of_mem _ hmem)) ?_
    exact hstep h hh b.1 b.2 List.mem_cons_self

theorem scopes_release_self (h : Heap) (frame : ScopeId) : (h.release frame).scopes[frame]? =
    if h.reclaims then
      if h.scopes.maxKey? == some frame then none else h.scopes[frame]?.map Scope.cleared
    else h.scopes[frame]? := by
  unfold release
  split
  · split
    · simp
    · simp
  · rfl

theorem scopes_release_ne (hj : j ≠ frame) : (h.release frame).scopes[j]? = h.scopes[j]? := by
  have hne : ¬ compare frame j = .eq := by simpa using Ne.symm hj
  unfold release
  split
  · split
    · rw [Std.TreeMap.getElem?_erase, if_neg hne]
    · rw [Std.TreeMap.getElem?_modify, if_neg hne]
  · rfl

/-- The end of a call changes nothing but the scopes. -/
theorem leave_eq (frame : ScopeId) (result : Except EvalError Value) (h : Heap) :
    h.leave frame result = { h with scopes := (h.leave frame result).scopes } := by
  unfold leave
  split
  · rfl
  · unfold release
    split
    · split <;> rfl
    · rfl

@[simp] theorem next_leave (frame : ScopeId) (result : Except EvalError Value) (h : Heap) :
    (h.leave frame result).next = h.next := by
  rw [leave_eq]

theorem scopes_leave_ne (hj : j ≠ frame) (result : Except EvalError Value) :
    (h.leave frame result).scopes[j]? = h.scopes[j]? := by
  unfold leave
  split
  · rfl
  · exact scopes_release_ne hj

theorem leave_closure (frame : ScopeId) (c : Closure) (h : Heap) :
    h.leave frame (.ok (.closure c)) = h := rfl

theorem leave_of_not_closure {r : Except EvalError Value} (hr : ∀ c, r ≠ .ok (.closure c)) :
    h.leave frame r = h.release frame := by
  unfold leave
  split
  · exact absurd rfl (hr _)
  · rfl

end Heap

/-! ## Reading and binding in a context -/

theorem Context.runOn_resolve (ctx : Context) (name : String) (line : Nat) (h : Heap) :
    (ctx.resolve name line).runOn h = match h.resolve ctx.scope name with
      | some v => (.ok v, h)
      | none => (.error ⟨.unresolved name, line⟩, h) := by
  rw [Context.resolve, Effect.runOn_bind, Effect.runOn_get]
  dsimp only
  cases h.resolve ctx.scope name <;> rfl

theorem Context.runOn_declare (ctx : Context) (name : String) (v : Value) (h : Heap) :
    (ctx.declare name v).runOn h = (.ok .unit, h.store ctx.scope name v) := by
  rw [Context.declare, Effect.runOn_bind, Effect.runOn_modify]
  rfl

/-! ## Calls -/

theorem runOn_callAt_zero (limit : Nat) (f : Closure) (args : List Value) (line : Nat) (h : Heap) :
    (callAt limit 0 f args line).runOn h = (.error ⟨.recursionLimit limit, line⟩, h) := rfl

/-- A call enters a frame, evaluates the body there, and leaves the frame. -/
theorem runOn_callAt_succ (limit allowed : Nat) (f : Closure) (args : List Value) (line : Nat)
    (h : Heap) :
    (callAt limit (allowed + 1) f args line).runOn h =
      let ctx : Context := ⟨callAt limit allowed, f.lambda.origin.program, h.next⟩
      let r := (f.lambda.body.eval ctx).runOn (h.enter f args).2
      (r.1, r.2.leave h.next r.1) := by
  rw [callAt, Effect.runOn_bind, Effect.runOn_change]
  dsimp only
  rw [Effect.runOn_bind, Effect.runOn_outcome]
  dsimp only
  rw [Effect.runOn_bind, Effect.runOn_modify]
  exact Effect.runOn_ofOutcome _ _

end GeoScript
