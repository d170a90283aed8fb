import GeoScript.Proofs.Lockstep

/-!
# What an evaluation can change

**Calls.** A call leaves every scope as it was that was there when it began (`keeps_callAt`).

**Expressions.** An evaluation in a scope leaves all older scopes but that one as they were; of that
one it changes only the names that the expression declares outside function literals
(`footprint_eval`).

Both are proved together, by induction on the depth to which calls may still nest: the body of a
call is evaluated in a frame that is younger than all those scopes. Scopes are numbered in the order
in which they are made, so the scopes that were there are those with a number below `next`.
-/

namespace GeoScript

namespace Heap

/-- The later heap of a run: no number is given back, and what a host sees to is as it was. -/
structure Later (h h' : Heap) : Prop where
  next_le : h.next ≤ h'.next
  held : h'.held = h.held
  programs : h'.programs = h.programs
  numbers : h'.draws.numbers = h.draws.numbers
  reclaims : h'.reclaims = h.reclaims

/-- All scopes that were there are as they were. -/
structure Keeps (h h' : Heap) : Prop extends Later h h' where
  scopes : ∀ id < h.next, h'.scopes[id]? = h.scopes[id]?

/-- Of the scopes that were there only `scope` may differ, and that only by what it binds to the
`allowed` names. -/
structure Footprint (scope : ScopeId) (allowed : String → Prop) (h h' : Heap) : Prop
    extends Later h h' where
  others : ∀ id < h.next, id ≠ scope → h'.scopes[id]? = h.scopes[id]?
  ancestors : scope < h.next →
    h'.scopes[scope]?.map Scope.ancestors = h.scopes[scope]?.map Scope.ancestors
  slots : scope < h.next → ∀ name, ¬ allowed name → h'.slot? scope name = h.slot? scope name

variable {h h' h'' : Heap} {scope frame : ScopeId} {allowed : String → Prop}

namespace Later

theorem refl (h : Heap) : Later h h := ⟨Nat.le_refl _, rfl, rfl, rfl, rfl⟩

theorem trans (h₁ : Later h h') (h₂ : Later h' h'') : Later h h'' where
  next_le := Nat.le_trans h₁.next_le h₂.next_le
  held := h₂.held.trans h₁.held
  programs := h₂.programs.trans h₁.programs
  numbers := h₂.numbers.trans h₁.numbers
  reclaims := h₂.reclaims.trans h₁.reclaims

theorem store (h : Heap) (id : ScopeId) (name : String) (v : Value) :
    Later h (h.store id name v) :=
  ⟨Nat.le_refl _, rfl, rfl, rfl, rfl⟩

theorem enter (f : Closure) (args : List Value) (h : Heap) : Later h (h.enter f args).2 := by
  rw [enter_eq]
  refine bindAll_induction (fun g hg name v _ => hg.trans (Later.store g _ name v)) ?_
  exact ⟨Nat.le_succ _, rfl, rfl, rfl, rfl⟩

theorem leave (frame : ScopeId) (r : Except EvalError Value) (h : Heap) :
    Later h (h.leave frame r) := by
  rw [leave_eq]
  exact ⟨Nat.le_refl _, rfl, rfl, rfl, rfl⟩

end Later

namespace Footprint

theorem refl (h : Heap) : Footprint scope allowed h h where
  toLater := Later.refl h
  others _ _ _ := rfl
  ancestors _ := rfl
  slots _ _ _ := rfl

theorem trans (h₁ : Footprint scope allowed h h') (h₂ : Footprint scope allowed h' h'') :
    Footprint scope allowed h h'' where
  toLater := h₁.toLater.trans h₂.toLater
  others id hid hne :=
    (h₂.others id (Nat.lt_of_lt_of_le hid h₁.next_le) hne).trans (h₁.others id hid hne)
  ancestors hs :=
    (h₂.ancestors (Nat.lt_of_lt_of_le hs h₁.next_le)).trans (h₁.ancestors hs)
  slots hs name hn :=
    (h₂.slots (Nat.lt_of_lt_of_le hs h₁.next_le) name hn).trans (h₁.slots hs name hn)

theorem store {name : String} (hn : allowed name) (v : Value) (h : Heap) :
    Footprint scope allowed h (h.store scope name v) where
  toLater := Later.store h scope name v
  others _ _ hne := scopes_store_ne hne
  ancestors _ := ancestors_store
  slots _ _ ho := slot?_store_ne fun heq => ho (heq ▸ hn)

theorem random (h : Heap) : Footprint scope allowed h h.random.2 :=
  ⟨⟨Nat.le_refl _, rfl, rfl, rfl, rfl⟩, fun _ _ _ => rfl, fun _ => rfl, fun _ _ _ => rfl⟩

end Footprint

/-- What changes no old scope is within every footprint. -/
theorem Keeps.footprint (hk : Keeps h h') : Footprint scope allowed h h' where
  toLater := hk.toLater
  others id hid _ := hk.scopes id hid
  ancestors hs := by rw [hk.scopes scope hs]
  slots hs _ _ := slot?_congr (hk.scopes scope hs)

/-- A new frame leaves the older scopes alone. -/
theorem keeps_enter (f : Closure) (args : List Value) (h : Heap) : Keeps h (h.enter f args).2 := by
  refine ⟨Later.enter f args h, fun id hid => ?_⟩
  have hne : id ≠ h.next := Nat.ne_of_lt hid
  rw [enter_eq]
  exact bindAll_induction (P := fun g => g.scopes[id]? = h.scopes[id]?)
    (fun g hg name v _ => (scopes_store_ne hne).trans hg) (scopes_newChild_ne hne)

/-- What only a new frame was changed by, and what ends that frame, keeps the older scopes. -/
theorem keeps_leave (f : Closure) (args : List Value) (r : Except EvalError Value)
    (hf : Footprint h.next allowed (h.enter f args).2 h') : Keeps h (h'.leave h.next r) := by
  have hk := keeps_enter f args h
  refine ⟨(hk.toLater.trans hf.toLater).trans (Later.leave h.next r h'), fun id hid => ?_⟩
  have hne : id ≠ h.next := Nat.ne_of_lt hid
  rw [scopes_leave_ne hne, hf.others id (Nat.lt_of_lt_of_le hid hk.next_le) hne, hk.scopes id hid]

end Heap

open Heap

/-! ## Footprints as a coupling -/

/-- Equal heaps, later ones within the footprint of earlier ones. -/
def footprintCoupling (scope : ScopeId) (allowed : String → Prop) : Coupling where
  World := Heap
  Le := Footprint scope allowed
  refl := Footprint.refl
  trans := Footprint.trans
  Holds w h k := w = h ∧ w = k
  Knows _ _ := True
  knows_mono _ _ := trivial

section

variable {scope : ScopeId} {allowed : String → Prop} {α : Type}

theorem knowsValue_footprint (w : Heap) (v : Value) :
    (footprintCoupling scope allowed).KnowsValue w v := by
  cases v <;> trivial

/-- A step runs in lockstep with itself as soon as it stays within the footprint. -/
theorem lockstep_of_footprint {m : Effect Heap Value}
    (hm : ∀ h, Footprint scope allowed h (m.runOn h).2) (w : Heap) :
    (footprintCoupling scope allowed).Lockstep w
      (footprintCoupling scope allowed).KnowsValue m := by
  rintro w₁ - - - ⟨rfl, rfl⟩
  exact ⟨(m.runOn w₁).2, hm w₁, ⟨rfl, rfl⟩, rfl, fun a _ => knowsValue_footprint _ a⟩

theorem serves_footprint {ctx : Context}
    (hi : ∀ f args line h, Keeps h ((ctx.invoke f args line).runOn h).2) :
    (footprintCoupling ctx.scope allowed).Serves ctx allowed where
  resolve := by
    rintro w - - name ⟨rfl, rfl⟩ -
    exact ⟨rfl, fun v _ => knowsValue_footprint _ v⟩
  store := by
    rintro w - - name v hn ⟨rfl, rfl⟩ - -
    exact ⟨w.store ctx.scope name v, Footprint.store hn v w, rfl, rfl⟩
  random := by
    rintro w - - ⟨rfl, rfl⟩
    exact ⟨rfl, w.random.2, Footprint.random w, rfl, rfl⟩
  invoke := by
    intro w f args line _ _
    exact lockstep_of_footprint (fun h => (hi f args line h).footprint) w

/-- Evaluation stays within its footprint when calls keep all scopes. -/
theorem footprint_of_keeps (ctx : Context)
    (hi : ∀ f args line h, Keeps h ((ctx.invoke f args line).runOn h).2) (e : Expr)
    (hd : ∀ name ∈ e.declared, allowed name) (h : Heap) :
    Footprint ctx.scope allowed h ((e.eval ctx).runOn h).2 := by
  obtain ⟨w, hw, ⟨hh, -⟩, -⟩ := (serves_footprint hi).lockstep_eval e h trivial hd h
    (Footprint.refl h) h h ⟨rfl, rfl⟩
  rw [← hh]
  exact hw

end

/-- **Calls change no scope that was there.** -/
theorem keeps_callAt (limit depth : Nat) (f : Closure) (args : List Value) (line : Nat) (h : Heap) :
    Keeps h ((callAt limit depth f args line).runOn h).2 := by
  induction depth generalizing f args line h with
  | zero =>
    rw [runOn_callAt_zero]
    exact ⟨Later.refl h, fun _ _ => rfl⟩
  | succ depth ih =>
    rw [runOn_callAt_succ]
    -- The body may bind any name, but only in its own frame.
    have hbody : Footprint h.next (fun _ => True) (h.enter f args).2 _ :=
      footprint_of_keeps ⟨callAt limit depth, f.lambda.origin.program, h.next⟩ ih f.lambda.body
        (fun _ _ => trivial) (h.enter f args).2
    exact keeps_leave f args _ hbody

/-- **Evaluation changes its own scope only**, and that only at names it declares. -/
theorem footprint_eval (limit depth program : Nat) (scope : ScopeId) (e : Expr) (h : Heap) :
    Footprint scope (· ∈ e.declared) h
      ((e.eval ⟨callAt limit depth, program, scope⟩).runOn h).2 :=
  footprint_of_keeps ⟨callAt limit depth, program, scope⟩ (keeps_callAt limit depth) e
    (fun _ hn => hn) h

end GeoScript
