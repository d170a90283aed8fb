import GeoScript.Session
import GeoScript.Proofs.Footprint

/-!
# Calls and programs in lockstep

**Stable couplings.** A coupling is stable when each operation of the heap keeps two heaps together:
reading and binding a name, drawing a random number, making a frame, and giving one back. No more is
needed for calls (`lockstep_callAt`) and for whole programs (`execute_remember`) to keep them
together.

**Giving a frame back** is where worlds may shrink. What was known before the call is known after
it, but not what became known within. So the condition on `release` starts from the world that the
call began in, and may use that the call has changed no scope of that time.
-/

namespace GeoScript

open Heap

namespace Coupling

/-- Every operation keeps two heaps together. -/
structure Stable (C : Coupling) : Prop where
  resolve {w : C.World} {h k : Heap} {scope : ScopeId} (name : String) :
    C.Holds w h k → C.Knows w scope → k.resolve scope name = h.resolve scope name ∧
      ∀ v, h.resolve scope name = some v → C.KnowsValue w v
  store {w : C.World} {h k : Heap} {scope : ScopeId} {v : Value} (name : String) :
    C.Holds w h k → C.Knows w scope → C.KnowsValue w v →
      ∃ w', C.Le w w' ∧ C.Holds w' (h.store scope name v) (k.store scope name v)
  random {w : C.World} {h k : Heap} : C.Holds w h k →
    k.random.1 = h.random.1 ∧ ∃ w', C.Le w w' ∧ C.Holds w' h.random.2 k.random.2
  newChild {w : C.World} {h k : Heap} {parent : ScopeId} : C.Holds w h k → C.Knows w parent →
    k.next = h.next ∧ ∃ w', C.Le w w' ∧ C.Knows w' h.next ∧
      C.Holds w' (h.newChild parent).2 (k.newChild parent).2
  /-- The frame that a call began with is given back at its end. -/
  release {w w' : C.World} {h h' k k' : Heap} : C.Holds w h k → C.Holds w' h' k' →
    Keeps h (h'.release h.next) → Keeps k (k'.release h.next) →
      ∃ w'', C.Le w w'' ∧ C.Holds w'' (h'.release h.next) (k'.release h.next)
  /-- One more program. -/
  program {w : C.World} {h k : Heap} : C.Holds w h k → k.programs = h.programs ∧
    ∃ w', C.Le w w' ∧
      C.Holds w' { h with programs := h.programs + 1 } { k with programs := k.programs + 1 }

namespace Stable

variable {C : Coupling} {w : C.World} {h k : Heap} {scope : ScopeId} (hc : C.Stable)
include hc

theorem bindAll {bs : List (String × Value)} (hk : C.Holds w h k) (hs : C.Knows w scope)
    (hv : ∀ b ∈ bs, C.KnowsValue w b.2) :
    ∃ w', C.Le w w' ∧ C.Holds w' (h.bindAll scope bs) (k.bindAll scope bs) := by
  induction bs generalizing w h k with
  | nil => exact ⟨w, C.refl w, hk⟩
  | cons b bs ih =>
    obtain ⟨w₁, h₁, hk₁⟩ := hc.store b.1 hk hs (hv b List.mem_cons_self)
    obtain ⟨w₂, h₂, hk₂⟩ := ih hk₁ (C.knows_mono h₁ hs)
      fun b hb => (hv b (List.mem_cons_of_mem _ hb)).mono h₁
    exact ⟨w₂, C.trans h₁ h₂, hk₂⟩

theorem enter {f : Closure} {args : List Value} (hk : C.Holds w h k) (hf : C.Knows w f.scope)
    (ha : ∀ a ∈ args, C.KnowsValue w a) :
    k.next = h.next ∧ ∃ w', C.Le w w' ∧ C.Knows w' h.next ∧
      C.Holds w' (h.enter f args).2 (k.enter f args).2 := by
  obtain ⟨hnext, w₁, h₁, hn, hk₁⟩ := hc.newChild hk hf
  refine ⟨hnext, ?_⟩
  have hv : ∀ b ∈ f.lambda.params.zip args, C.KnowsValue w₁ b.2 := by
    intro b hb
    exact (ha b.2 (List.of_mem_zip hb).2).mono h₁
  obtain ⟨w₂, h₂, hk₂⟩ := hc.bindAll hk₁ hn hv
  refine ⟨w₂, C.trans h₁ h₂, C.knows_mono h₂ hn, ?_⟩
  rw [enter_eq, enter_eq, hnext]
  exact hk₂

theorem serves {invoke : Closure → List Value → Nat → Effect Heap Value} (program : Nat)
    (scope : ScopeId) (hi : ∀ (w : C.World) (f : Closure) (args : List Value) (line : Nat),
      C.Knows w f.scope → (∀ a ∈ args, C.KnowsValue w a) →
        C.Lockstep w C.KnowsValue (invoke f args line)) :
    C.Serves ⟨invoke, program, scope⟩ fun _ => True where
  resolve name hk hs := hc.resolve name hk hs
  store _ hk hs hv := hc.store _ hk hs hv
  random hk := hc.random hk
  invoke line hf ha := hi _ _ _ line hf ha

/-- **Calls run in lockstep.** -/
theorem lockstep_callAt (limit depth : Nat) (w : C.World) (f : Closure) (args : List Value)
    (line : Nat) (hf : C.Knows w f.scope) (ha : ∀ a ∈ args, C.KnowsValue w a) :
    C.Lockstep w C.KnowsValue (callAt limit depth f args line) := by
  induction depth generalizing w f args line with
  | zero => exact lockstep_fail _ _
  | succ depth ih =>
    intro w₁ h₁ h k hk
    have hkeeps := keeps_callAt limit (depth + 1) f args line
    have hkh := hkeeps h
    have hkk := hkeeps k
    obtain ⟨hnext, w₂, h₂, hn, hk₂⟩ :=
      hc.enter hk (C.knows_mono h₁ hf) fun a hm => (ha a hm).mono h₁
    rw [runOn_callAt_succ] at hkh hkk ⊢
    rw [runOn_callAt_succ]
    rw [hnext] at hkk ⊢
    obtain ⟨w₃, h₃, hk₃, ho, hv⟩ := (hc.serves f.lambda.origin.program h.next ih).lockstep_eval
      f.lambda.body w₂ hn (fun _ _ => trivial) w₂ (C.refl w₂) _ _ hk₂
    dsimp only at hkh hkk ⊢
    rw [ho] at hkk ⊢
    -- The frame goes unless the outcome is a closure.
    by_cases hr : ∃ c, ((f.lambda.body.eval ⟨callAt limit depth, f.lambda.origin.program,
        h.next⟩).runOn (h.enter f args).2).1 = .ok (.closure c)
    · obtain ⟨c, hr⟩ := hr
      rw [hr, leave_closure, leave_closure]
      exact ⟨w₃, C.trans h₂ h₃, hk₃, rfl, fun v hv' => hv v (hr.trans hv')⟩
    · rw [leave_of_not_closure fun c hrc => hr ⟨c, hrc⟩] at hkh hkk ⊢
      rw [leave_of_not_closure fun c hrc => hr ⟨c, hrc⟩]
      obtain ⟨w₄, h₄, hk₄⟩ := hc.release hk hk₃ hkh hkk
      refine ⟨w₄, h₄, hk₄, rfl, fun v hv' => ?_⟩
      cases v with
      | closure c => exact absurd ⟨c, hv'⟩ hr
      | _ => trivial

/-- **Programs run in lockstep**, up to the binding of the result. -/
theorem execute_remember (hk : C.Holds w h k) (hs : C.Knows w scope) (limit : Nat) (e : Expr) :
    (k.execute limit e scope).1 = (h.execute limit e scope).1 ∧ ∃ w', C.Le w w' ∧
      C.Holds w' ((h.execute limit e scope).2.remember scope (h.execute limit e scope).1)
        ((k.execute limit e scope).2.remember scope (k.execute limit e scope).1) := by
  obtain ⟨hprog, w₀, h₀, hk⟩ := hc.program hk
  replace hs := C.knows_mono h₀ hs
  obtain ⟨w₁, h₁, hk₁, ho, hv⟩ := (hc.serves h.programs scope
    (hc.lockstep_callAt limit limit)).lockstep_eval e w₀ hs (fun _ _ => trivial) w₀ (C.refl w₀)
      _ _ hk
  have hexec : k.execute limit e scope =
      (e.eval ⟨callAt limit limit, h.programs, scope⟩).runOn
        { k with programs := k.programs + 1 } := by
    rw [execute, hprog]
    rfl
  rw [← hexec] at hk₁ ho
  replace hk₁ : C.Holds w₁ (h.execute limit e scope).2 (k.execute limit e scope).2 := hk₁
  replace ho : (k.execute limit e scope).1 = (h.execute limit e scope).1 := ho
  replace hv : ∀ v, (h.execute limit e scope).1 = .ok v → C.KnowsValue w₁ v := hv
  refine ⟨ho, ?_⟩
  rw [ho]
  cases hr : (h.execute limit e scope).1 with
  | error err => exact ⟨w₁, C.trans h₀ h₁, hk₁⟩
  | ok v =>
    obtain ⟨w₂, h₂, hk₂⟩ := hc.store lastResult hk₁ (C.knows_mono h₁ hs) (hv v hr)
    exact ⟨w₂, C.trans h₀ (C.trans h₁ h₂), hk₂⟩

end Stable

end Coupling

end GeoScript
