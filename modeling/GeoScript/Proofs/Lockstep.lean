import GeoScript.Proofs.Interpretation

/-!
# Two runs in lockstep

**Couplings.** A coupling says which pairs of heaps belong together, and in which world they do.
Worlds only grow; each of them knows scopes, and a value is known when the scope it was made in is.
Running a step in *lockstep* on two heaps of a world means that the outcomes are the same, that the
heaps belong together in a later world, and that the result is known there.

**One heap** is the case of a coupling whose pairs are equal heaps. What every step then keeps is an
invariant of the heap, and what later worlds have in common with earlier ones is what a step cannot
change.

**Theorem (`lockstep_eval`).** If reading and binding names in a scope, drawing random numbers and
calling known closures keep two heaps together, then so does the evaluation of any expression in
that scope. A coupling is a correspondence between a machine and itself in which closures belong
together if they are the same and known; so this is the walk on two machines. A scope in which only
some names can be bound is enough for an expression that declares no others.
-/

namespace GeoScript

/-! ## Couplings -/

/-- A way to keep two heaps together while the same steps are run on both. -/
structure Coupling where
  World : Type
  /-- The second world is as late as the first. -/
  Le : World → World → Prop
  refl (w : World) : Le w w
  trans {a b c : World} : Le a b → Le b c → Le a c
  /-- The pairs of heaps that belong together. -/
  Holds : World → Heap → Heap → Prop
  /-- The scopes that values may have been made in. -/
  Knows : World → ScopeId → Prop
  knows_mono {a b : World} {id : ScopeId} : Le a b → Knows a id → Knows b id

namespace Coupling

variable (C : Coupling) {α : Type}

/-- The value is no closure, or a closure made in a scope that is known. -/
def KnowsValue (w : C.World) : Value → Prop
  | .closure c => C.Knows w c.scope
  | _ => True

/-- From heaps that belong together in a world as late as `w`, the step ends alike on both: in the
same outcome, with heaps that belong together again, and with a result as promised by `Q`. -/
def Lockstep (w : C.World) (Q : C.World → α → Prop) (m : Effect Heap α) : Prop :=
  ∀ w₁, C.Le w w₁ → ∀ h k, C.Holds w₁ h k →
    ∃ w₂, C.Le w₁ w₂ ∧ C.Holds w₂ (m.runOn h).2 (m.runOn k).2 ∧
      (m.runOn k).1 = (m.runOn h).1 ∧ ∀ a, (m.runOn h).1 = .ok a → Q w₂ a

variable {C} {w w' : C.World} {Q : C.World → α → Prop}

theorem knowsValue_iff {v : Value} :
    C.KnowsValue w v ↔ ∀ f c, v = .closure ⟨f, c⟩ → C.Knows w c := by
  cases v with
  | closure f =>
    constructor
    · rintro hf g c heq
      rw [← (Closure.mk.inj (Value.closure.inj heq)).2]
      exact hf
    · intro hf
      exact hf f.lambda f.scope rfl
  | _ => exact ⟨fun _ _ _ heq => by simp at heq, fun _ => trivial⟩

theorem KnowsValue.mono {v : Value} (hv : C.KnowsValue w v) (hw : C.Le w w') :
    C.KnowsValue w' v := by
  cases v with
  | closure c => exact C.knows_mono hw hv
  | _ => trivial

theorem knowsValue_of_plain {v : Value} (h : v.isClosure = false) : C.KnowsValue w v := by
  cases v with
  | closure c => cases h
  | _ => trivial

theorem lockstep_fail (fault : EvalFault) (line : Nat) :
    C.Lockstep w Q (Effect.fail fault line : Effect Heap α) := by
  intro w₁ _ h k hk
  refine ⟨w₁, C.refl _, hk, rfl, fun b hb => ?_⟩
  cases hb

/-! ## Couplings as correspondences -/

/-- The correspondence in which closures are the same, and made in a scope that is known. -/
def correspondence (C : Coupling) : Correspondence Heap Heap where
  World := C.World
  Le := C.Le
  trans := C.trans
  Ran := C.Le
  ran_refl := C.refl
  ran_trans := C.trans
  le_of_ran h := h
  Holds := C.Holds
  Closures w c c' := c' = c ∧ C.Knows w c.scope
  mono hw hc := ⟨hc.1, C.knows_mono hw hc.2⟩
  beq hc hd := by rw [hc.1, hd.1]
  Lines l l' := l' = l
  Cut _ := False
  strict := False

theorem values_iff {v v' : Value} :
    C.correspondence.Values w v v' ↔ v' = v ∧ C.KnowsValue w v := by
  constructor
  · intro hv
    cases hv with
    | closure hc => exact ⟨congrArg Value.closure hc.1, hc.2⟩
    | plain hplain => exact ⟨rfl, knowsValue_of_plain hplain⟩
  · rintro ⟨rfl, hv⟩
    cases v' with
    | closure c => exact .closure ⟨rfl, hv⟩
    | _ => exact .plain rfl False.elim

theorem allValues_iff {vs vs' : List Value} :
    C.correspondence.AllValues w vs vs' ↔ vs' = vs ∧ ∀ v ∈ vs, C.KnowsValue w v := by
  constructor
  · intro hv
    induction hv with
    | nil => simp
    | cons h _ ih =>
      obtain ⟨rfl, h⟩ := values_iff.1 h
      obtain ⟨rfl, ih⟩ := ih
      exact ⟨rfl, List.forall_mem_cons.2 ⟨h, ih⟩⟩
  · rintro ⟨rfl, hv⟩
    exact List.forall₂_same.2 fun v hmem => values_iff.2 ⟨rfl, hv v hmem⟩

/-- To run in lockstep is to go together with oneself. -/
theorem lockstep_iff_together {m : Effect Heap α} :
    C.Lockstep w Q m ↔ C.correspondence.Together w (fun w a b => b = a ∧ Q w a) m m := by
  constructor
  · intro hm w₁ h₁ h k hk
    obtain ⟨w₂, h₂, hh, ho, hq⟩ := hm w₁ h₁ h k hk
    rcases eh : m.runOn h with ⟨r, h'⟩
    rcases ek : m.runOn k with ⟨r', k'⟩
    simp only [eh, ek] at hh ho hq
    subst ho
    cases r' with
    | ok a => exact .ok h₂ hh ⟨rfl, hq a rfl⟩
    | error e => exact .error h₂ hh rfl rfl
  · intro hm w₁ h₁ h k hk
    have hends := hm w₁ h₁ h k hk
    generalize m.runOn h = r at hends ⊢
    generalize m.runOn k = r' at hends ⊢
    cases hends with
    | ok h₂ hh hq => exact ⟨_, h₂, hh, congrArg Except.ok hq.1, fun _ ha => Except.ok.inj ha ▸ hq.2⟩
    | error h₂ hh hfault hline =>
      exact ⟨_, h₂, hh, congrArg Except.error (EvalError.ext hfault hline), fun _ ha => by cases ha⟩
    | cut hcut => exact hcut.elim

theorem lockstep_iff_together_values {m : Effect Heap Value} :
    C.Lockstep w C.KnowsValue m ↔ C.correspondence.Together w C.correspondence.Values m m := by
  rw [lockstep_iff_together]
  exact ⟨fun hm => hm.imp fun _ _ _ => values_iff.2, fun hm => hm.imp fun _ _ _ => values_iff.1⟩

/-! ## Evaluation -/

/-- The operations of a context keep heaps together: names are read alike and give known values,
the `allowed` names can be bound to known values, random numbers are drawn alike, and known closures
can be called. -/
structure Serves (C : Coupling) (ctx : Context) (allowed : String → Prop) : Prop where
  resolve {w : C.World} {h k : Heap} (name : String) : C.Holds w h k → C.Knows w ctx.scope →
    k.resolve ctx.scope name = h.resolve ctx.scope name ∧
      ∀ v, h.resolve ctx.scope name = some v → C.KnowsValue w v
  store {w : C.World} {h k : Heap} {name : String} {v : Value} : allowed name → C.Holds w h k →
    C.Knows w ctx.scope → C.KnowsValue w v →
      ∃ w₁, C.Le w w₁ ∧ C.Holds w₁ (h.store ctx.scope name v) (k.store ctx.scope name v)
  random {w : C.World} {h k : Heap} : C.Holds w h k →
    k.random.1 = h.random.1 ∧ ∃ w₁, C.Le w w₁ ∧ C.Holds w₁ h.random.2 k.random.2
  invoke {w : C.World} {f : Closure} {args : List Value} (line : Nat) : C.Knows w f.scope →
    (∀ a ∈ args, C.KnowsValue w a) → C.Lockstep w C.KnowsValue (ctx.invoke f args line)

namespace Serves

variable {ctx : Context} {allowed : String → Prop} (hc : C.Serves ctx allowed)
include hc

theorem lockstep_resolve (hs : C.Knows w ctx.scope) (name : String) (line : Nat) :
    C.Lockstep w C.KnowsValue (ctx.resolve name line) := by
  intro w₁ h₁ h k hk
  obtain ⟨heq, hv⟩ := hc.resolve name hk (C.knows_mono h₁ hs)
  refine ⟨w₁, C.refl _, ?_⟩
  rw [Context.runOn_resolve, Context.runOn_resolve, heq]
  cases hr : h.resolve ctx.scope name with
  | none => exact ⟨hk, rfl, fun a ha => by cases ha⟩
  | some v => exact ⟨hk, rfl, fun a ha => Except.ok.inj ha ▸ hv v hr⟩

theorem lockstep_declare (hs : C.Knows w ctx.scope) {name : String} (hn : allowed name)
    {v : Value} (hv : C.KnowsValue w v) : C.Lockstep w C.KnowsValue (ctx.declare name v) := by
  intro w₁ h₁ h k hk
  obtain ⟨w₂, h₂, hk₂⟩ := hc.store hn hk (C.knows_mono h₁ hs) (hv.mono h₁)
  refine ⟨w₂, h₂, ?_⟩
  rw [Context.runOn_declare, Context.runOn_declare]
  exact ⟨hk₂, rfl, fun a ha => Except.ok.inj ha ▸ trivial⟩

theorem lockstep_random : C.Lockstep w (fun _ _ => True) (Effect.change Heap.random) := by
  intro w₁ _ h k hk
  obtain ⟨heq, w₂, h₂, hk₂⟩ := hc.random hk
  exact ⟨w₂, h₂, hk₂, congrArg Except.ok heq, fun _ _ => trivial⟩

/-- The machine that can bind the allowed names goes together with itself. -/
theorem restricted (hs : C.Knows w ctx.scope) :
    C.correspondence.Serves w .any id (ctx.restricted allowed) (ctx.restricted allowed) where
  lines _ := rfl
  hollow := False.elim
  resolve := by
    rintro name _ l - rfl
    exact lockstep_iff_together_values.1 (hc.lockstep_resolve hs name l)
  declare := by
    intro w₁ v v' name h₁ hv
    obtain ⟨rfl, hv⟩ := values_iff.1 hv
    by_cases hn : allowed name
    · rw [ctx.declare_restricted hn]
      exact lockstep_iff_together_values.1 (hc.lockstep_declare (C.knows_mono h₁ hs) hn hv)
    · rw [ctx.declare_restricted_of_not hn]
      exact Correspondence.together_pure fun _ _ => .plain rfl False.elim
  close params _ _ := ⟨by rw [Expr.placed_id]; rfl, hs⟩
  invoke := by
    rintro w₁ c _ vs vs' _ l - ⟨rfl, hf⟩ hv rfl
    obtain ⟨rfl, hv⟩ := allValues_iff.1 hv
    exact lockstep_iff_together_values.1 (hc.invoke l hf hv)
  random := lockstep_iff_together.1 hc.lockstep_random
  watch _ hm := hm
  watchCall _ _ hm := hm

/-- **Evaluation runs in lockstep**, whatever the expression, as long as the names it declares may
be bound. -/
theorem lockstep_eval (e : Expr) (w : C.World) (hs : C.Knows w ctx.scope)
    (hd : ∀ n ∈ e.declared, allowed n) : C.Lockstep w C.KnowsValue (e.eval ctx) := by
  have hwalk := (hc.restricted hs).together_interpret (C := C.correspondence) e w e.meets_any
  rw [Expr.placed_id, interpret_restricted ctx e hd] at hwalk
  exact lockstep_iff_together_values.2 hwalk

end Serves

end Coupling

end GeoScript
