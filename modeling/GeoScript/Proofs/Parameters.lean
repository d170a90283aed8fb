import GeoScript.Proofs.Numbering
import GeoScript.Proofs.Transparency

/-!
# What names stand for in a frame

**A new frame** binds the parameters of a closure as far as there are arguments. Any other name stands
for what it stands for in the scope that the closure was made in (`resolve_enter`).

**Theorem (`missing_parameter`).** A parameter without an argument is such a name. Where the body
reads it before declaring it, it gives what the scopes around the closure bind to it, and is
unresolved exactly when none of them does. The call is the call of the closure that has no such
parameter.
-/

namespace GeoScript

namespace Heap

variable {h h' : Heap} {scope frame : ScopeId} {allowed : String → Prop} {name : String}
  {f : Closure} {args : List Value}

/-- Scopes that bind a name alike give the same for it. -/
theorem findSome?_local?_congr {ids : List ScopeId}
    (hids : ∀ id ∈ ids, h'.local? name id = h.local? name id) :
    ids.findSome? (h'.local? name) = ids.findSome? (h.local? name) := by
  rw [← List.head?_filterMap, ← List.head?_filterMap, List.filterMap_congr hids]

/-- A name that may not be bound stands for what it stood for. -/
theorem Footprint.resolve_eq (hf : Footprint scope allowed h h')
    (hchain : ∀ id ∈ h.chain scope, id < h.next) (hname : ¬ allowed name) :
    h'.resolve scope name = h.resolve scope name := by
  have hscope : scope < h.next := hchain scope List.mem_cons_self
  rw [resolve, resolve, chain_congr (hf.ancestors hscope)]
  refine findSome?_local?_congr fun id hid => ?_
  by_cases heq : id = scope
  · rw [local?_eq, local?_eq, heq, hf.slots hscope name hname]
  · exact local?_congr (hf.others id (hchain id hid) heq)

/-- In a frame the last binding of a name counts. -/
theorem local?_bindAll (bs : List (String × Value)) (hframe : frame ∈ h.scopes) :
    (bindAll frame bs h).local? name frame =
      (bs.reverse.lookup name).or (h.local? name frame) := by
  induction bs generalizing h with
  | nil => rfl
  | cons b bs ih =>
    obtain ⟨key, v⟩ := b
    have hstep : bindAll frame ((key, v) :: bs) h = bindAll frame bs (h.store frame key v) := rfl
    rw [hstep, ih (mem_scopes_store.2 hframe), List.reverse_cons, List.lookup_append, Option.or_assoc]
    congr 1
    by_cases hb : name = key
    · rw [hb, local?_store_self hframe, List.lookup_cons_self, Option.some_or]
    · have hne : (name == key) = false := by simpa using hb
      rw [local?_store_ne fun _ => hb, List.lookup_cons, hne, List.lookup_nil, Option.none_or]

theorem chain_enter (h : Heap) (f : Closure) (args : List Value) :
    (h.enter f args).2.chain h.next = h.next :: h.chain f.scope := by
  have hanc : (h.enter f args).2.scopes[h.next]?.map Scope.ancestors = some (h.chain f.scope) := by
    rw [enter_eq]
    refine bindAll_induction (P := fun g => g.scopes[h.next]?.map Scope.ancestors = _)
      (fun g hg name v _ => ancestors_store.trans hg) ?_
    rw [scopes_newChild_self]
    rfl
  rw [chain, hanc]
  rfl

theorem next_enter (h : Heap) (f : Closure) (args : List Value) :
    (h.enter f args).2.next = h.next + 1 := by
  rw [enter_eq]
  exact bindAll_induction (P := fun g => g.next = h.next + 1) (fun g hg name v _ => hg) rfl

theorem lt_of_mem_chain_enter (hn : h.Numbered) (hf : f.scope < h.next) (args : List Value) :
    ∀ id ∈ (h.enter f args).2.chain h.next, id < (h.enter f args).2.next := by
  intro id hid
  rw [chain_enter] at hid
  rw [next_enter]
  rcases List.mem_cons.1 hid with rfl | hid
  · exact Nat.lt_succ_self _
  · exact Nat.lt_succ_of_lt (hn.lt_of_mem_chain hf id hid)

/-- **A name in a new frame** is the argument bound to it, or what it is around the closure. -/
theorem resolve_enter (hn : h.Numbered) (hf : f.scope < h.next) (args : List Value) (name : String) :
    (h.enter f args).2.resolve h.next name =
      ((f.lambda.params.zip args).reverse.lookup name).or (h.resolve f.scope name) := by
  have hlocal : (h.enter f args).2.local? name h.next =
      (f.lambda.params.zip args).reverse.lookup name := by
    have hmem : h.next ∈ (h.newChild f.scope).2.scopes :=
      mem_table_iff.2 ⟨_, scopes_newChild_self h f.scope⟩
    rw [enter_eq, local?_bindAll _ hmem, local?_eq, slot?, scopes_newChild_self]
    simp
  have houter : (h.chain f.scope).findSome? ((h.enter f args).2.local? name) =
      h.resolve f.scope name := by
    refine findSome?_local?_congr fun id hid => ?_
    exact local?_congr ((keeps_enter f args h).scopes id (hn.lt_of_mem_chain hf id hid))
  rw [resolve, chain_enter, List.findSome?_cons, hlocal, houter]
  cases (f.lambda.params.zip args).reverse.lookup name <;> rfl

end Heap

open Heap

/-! ## Parameters without arguments -/

namespace Closure

variable {f : Closure} {args : List Value} {name : String}

/-- There is no argument for this parameter. -/
def Misses (f : Closure) (args : List Value) (name : String) : Prop :=
  name ∈ f.lambda.params ∧ name ∉ f.lambda.params.take args.length

/-- The closure with so many of its parameters only. -/
def withParams (f : Closure) (count : Nat) : Closure :=
  { f with lambda := { f.lambda with params := f.lambda.params.take count } }

/-- Parameters are bound as far as there are arguments. -/
theorem zip_take_params (params : List String) (args : List Value) :
    (params.take args.length).zip args = params.zip args := by
  induction params generalizing args with
  | nil => simp
  | cons p params ih =>
    cases args with
    | nil => simp
    | cons a args => simp [ih]

theorem lookup_of_misses (hm : f.Misses args name) :
    (f.lambda.params.zip args).reverse.lookup name = none := by
  rw [List.lookup_eq_none_iff, ← zip_take_params]
  intro b hb
  obtain ⟨hparam, -⟩ := List.of_mem_zip (a := b.1) (b := b.2) (List.mem_reverse.1 hb)
  have hne : name ≠ b.1 := fun heq => hm.2 (heq ▸ hparam)
  simpa using hne

end Closure

/-- Parameters without arguments are not noticed by a call. -/
theorem callAt_withParams (limit allowed : Nat) (f : Closure) (args : List Value) (line : Nat) :
    callAt limit allowed f args line = callAt limit allowed (f.withParams args.length) args line := by
  cases allowed with
  | zero => rfl
  | succ allowed =>
    have henter : Heap.enter f args = Heap.enter (f.withParams args.length) args := by
      funext h
      rw [enter_eq, enter_eq, ← Closure.zip_take_params]
      rfl
    rw [callAt, callAt, henter]
    rfl

/-- **A parameter without an argument is a name like any other.** Whatever part of the body has been
evaluated before, as long as it does not declare the name, reading it fails exactly when no scope
around the closure binds it; otherwise it gives what is bound there. The call is that of the closure
without those parameters. -/
theorem missing_parameter {h : Heap} {f : Closure} {args : List Value} {name : String}
    (hn : h.Numbered) (hf : f.scope < h.next) (hm : f.Misses args name) (before : Expr)
    (hb : name ∉ before.declared) (limit allowed line : Nat) (p : Position) :
    let ctx : Context := ⟨callAt limit allowed, f.lambda.origin.program, h.next⟩
    let read := ((Expr.ident name p).eval ctx).runOn ((before.eval ctx).runOn (h.enter f args).2).2
    (read.1 = .error ⟨.unresolved name, p.line⟩ ↔ h.resolve f.scope name = none) ∧
    (∀ v, h.resolve f.scope name = some v → read.1 = .ok v) ∧
    callAt limit (allowed + 1) f args line =
      callAt limit (allowed + 1) (f.withParams args.length) args line := by
  intro ctx read
  have hresolve : ((before.eval ctx).runOn (h.enter f args).2).2.resolve h.next name =
      h.resolve f.scope name := by
    -- What ran before binds nothing under this name in the frame, and neither did the call.
    have hfoot := footprint_eval limit allowed f.lambda.origin.program h.next before
      (h.enter f args).2
    rw [hfoot.resolve_eq (lt_of_mem_chain_enter hn hf args) hb, resolve_enter hn hf,
      Closure.lookup_of_misses hm, Option.none_or]
  have hcall := callAt_withParams limit (allowed + 1) f args line
  cases hname : h.resolve f.scope name with
  | none =>
    have hread : read.1 = .error ⟨.unresolved name, p.line⟩ := by
      show ((ctx.resolve name p.line).runOn _).1 = _
      rw [Context.runOn_resolve, hresolve, hname]
    exact ⟨by simp [hread], by simp, hcall⟩
  | some v =>
    have hread : read.1 = .ok v := by
      show ((ctx.resolve name p.line).runOn _).1 = _
      rw [Context.runOn_resolve, hresolve, hname]
    exact ⟨by simp [hread], fun w hw => by rw [hread, Option.some.inj hw], hcall⟩

/-- A closure of two parameters, called with one argument beside a binding of the other name. -/
theorem missing_parameter_shadowed :
    let h := (Heap.start false 0).2.store 0 "b" (.number 7)
    let p : Position := .start
    let f : Closure := ⟨⟨["a", "b"], .seq [.ident "b" p] p, ⟨0, p⟩⟩, 0⟩
    let ctx : Context := ⟨callAt 1 0, 0, h.next⟩
    h.Numbered ∧ f.scope < h.next ∧ f.Misses [.number 1] "b" ∧
      ((((Expr.ident "b" p).eval ctx).runOn
        (((Expr.seq [] p).eval ctx).runOn (h.enter f [.number 1]).2).2).1 = .ok (.number 7)) := by
  intro h p f ctx
  have hn : h.Numbered := (numbered_start false 0).store trivial
  have hf : f.scope < h.next := by decide +kernel
  have hm : f.Misses [.number 1] "b" := ⟨by decide, by decide⟩
  have hb : h.resolve f.scope "b" = some (.number 7) := by rfl
  exact ⟨hn, hf, hm, (missing_parameter hn hf hm (.seq [] p) (by decide) 1 0 1 p).2.1 _ hb⟩

/-- A parameter without an argument is not unresolved where the name is bound around the
closure. -/
theorem missing_parameter_resolved :
    (evaluateAlone "b = 7; f = Function((a, b) => b); f(1)").map Value.text = .ok "7" := by
  decide +kernel

end GeoScript
