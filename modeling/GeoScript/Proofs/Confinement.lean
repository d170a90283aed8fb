import GeoScript.Session
import GeoScript.Proofs.Footprint
import GeoScript.Proofs.Reachability

/-!
# Evaluation writes only where it may

**Theorem (`evaluation_confined`).** Evaluating an expression changes its own scope only, and that
only at the names it declares; a call changes no scope that was there when it began. Evaluating a
source text ends as evaluating its program does, and on success it binds `$?` in addition. A text
that cannot be read changes nothing.

**Giving back.** At the end of an evaluation scopes are given back that are no longer in use. What a
host holds is not among them, and neither is anything that this leads to before the evaluation: of
all references only those may be lost that its own scope has by the names that may be bound
(`Secure`). Of the rest a scope is given back whole, or it stays as it was, and no scope that the
host holds leads to one that was given back.

The first two parts are the footprints of `GeoScript.Proofs.Footprint`. What is left is the end of
an evaluation: one more name is bound, and collecting takes scopes whole or not at all. A secure
scope is led to before collecting by the same references, so collecting does not take it.
-/

namespace GeoScript

namespace Heap

variable {h h' : Heap} {scope root id i j : ScopeId} {allowed : String → Prop}

/-! ## Collecting leaves what is in use in use -/

theorem leads_of_leads_collect (hl : (h.collect root).Leads i j) : h.Leads i j := by
  refine Relation.ReflTransGen.mono (fun a b hab => ?_) _ _ hl
  obtain ⟨s, hs, hb⟩ := hab
  rcases scopes_collect_cases h root a with heq | ⟨hnone, -⟩
  · exact ⟨s, heq.symm.trans hs, hb⟩
  · rw [hnone] at hs
    cases hs

theorem inUse_of_inUse_collect (hu : (h.collect root).InUse id) : h.InUse id := by
  obtain ⟨s, hs, hl⟩ := hu
  rw [collect_eq] at hs
  exact ⟨s, hs, leads_of_leads_collect hl⟩

/-! ## What an evaluation of a text leaves -/

/-- The scope was given back, and no scope that a host holds leads there. -/
def Gone (h : Heap) (id : ScopeId) : Prop := h.scopes[id]? = none ∧ ¬ h.InUse id

/-- A scope that is there refers to another, not only by a closure that `scope` binds to an `allowed`
name. -/
def RefersBeside (scope : ScopeId) (allowed : String → Prop) (h : Heap) (i j : ScopeId) : Prop :=
  i < h.next ∧ ∃ s, h.scopes[i]? = some s ∧ (s.parent? = some j ∨
    ∃ name slot, (i = scope → ¬ allowed name) ∧ s.bindings[name]? = some slot ∧
      slot.captured? = some j)

/-- A scope that a host holds leads to `id`, whatever `scope` binds to the `allowed` names. -/
def Secure (scope : ScopeId) (allowed : String → Prop) (h : Heap) (id : ScopeId) : Prop :=
  ∃ s ∈ h.held, Relation.ReflTransGen (h.RefersBeside scope allowed) s id

/-- The scope is as it was, but for what it binds to the `allowed` names if it is `scope`. -/
structure Kept (scope : ScopeId) (allowed : String → Prop) (h h' : Heap) (id : ScopeId) : Prop where
  other : id ≠ scope → h'.scopes[id]? = h.scopes[id]?
  ancestors : h'.scopes[id]?.map Scope.ancestors = h.scopes[id]?.map Scope.ancestors
  slots : ∀ name, ¬ allowed name → h'.slot? id name = h.slot? id name

/-- Of the scopes that were there only `scope` may differ, and that only by what it binds to the
`allowed` names. Scopes that are not secure may be given back instead. -/
structure Confined (scope : ScopeId) (allowed : String → Prop) (h h' : Heap) : Prop where
  held : h'.held = h.held
  secure : ∀ id < h.next, h.Secure scope allowed id → Kept scope allowed h h' id
  others : ∀ id < h.next, Kept scope allowed h h' id ∨ h'.Gone id

/-- The number of programs is nothing that a scope knows. -/
theorem Confined.of_programs {n : Nat} (hc : Confined scope allowed { h with programs := n } h') :
    Confined scope allowed h h' where
  held := hc.held
  secure id hid hs :=
    have hk := hc.secure id hid hs
    ⟨hk.other, hk.ancestors, hk.slots⟩
  others id hid := (hc.others id hid).imp_left fun hk => ⟨hk.other, hk.ancestors, hk.slots⟩

theorem secure_of_held (hid : id ∈ h.held) : h.Secure scope allowed id := ⟨id, hid, .refl⟩

theorem scopes_collect_or_gone (h : Heap) (root id : ScopeId) :
    (h.collect root).scopes[id]? = h.scopes[id]? ∨ (h.collect root).Gone id := by
  rcases scopes_collect_cases h root id with heq | ⟨hnone, hn⟩
  · exact Or.inl heq
  · exact Or.inr ⟨hnone, fun hu => hn (inUse_of_inUse_collect hu)⟩

namespace Footprint

theorem kept (hf : Footprint scope allowed h h') (hid : id < h.next) :
    Kept scope allowed h h' id := by
  by_cases heq : id = scope
  · subst heq
    exact ⟨fun hne => absurd rfl hne, hf.ancestors hid, hf.slots hid⟩
  · have hs := hf.others id hid heq
    exact ⟨fun _ => hs, congrArg (Option.map Scope.ancestors) hs, fun _ _ => slot?_congr hs⟩

/-- References that do not hang on allowed names are still there. -/
theorem refers (hf : Footprint scope allowed h h') (hij : h.RefersBeside scope allowed i j) :
    h'.Refers i j := by
  obtain ⟨hi, s, hs, hj⟩ := hij
  obtain ⟨t, ht, hanc⟩ := Option.map_eq_some_iff.1
    ((hf.kept hi).ancestors.trans (congrArg (Option.map Scope.ancestors) hs))
  refine ⟨t, ht, ?_⟩
  rw [Scope.references, List.mem_append]
  rcases hj with hparent | ⟨name, slot, hn, hslot, hcaptured⟩
  · left
    rw [Scope.parent?, hanc, ← Scope.parent?, hparent]
    exact List.mem_singleton_self j
  · right
    have hkept : h'.slot? i name = h.slot? i name := by
      by_cases heq : i = scope
      · exact (hf.kept hi).slots name (hn heq)
      · exact slot?_congr (hf.others i hi heq)
    rw [slot?, slot?, ht, hs, Option.bind_some, Option.bind_some, hslot] at hkept
    exact Scope.mem_captures.2 ⟨name, slot, hkept, hcaptured⟩

/-- What was secure is in use. -/
theorem inUse (hf : Footprint scope allowed h h') (hid : h.Secure scope allowed id) :
    h'.InUse id := by
  obtain ⟨s, hs, hl⟩ := hid
  exact ⟨s, hf.held ▸ hs, Relation.ReflTransGen.mono (fun _ _ => hf.refers) _ _ hl⟩

/-- **Collecting takes nothing that was secure.** -/
theorem confined_collect (hf : Footprint scope allowed h h') (root : ScopeId) :
    Confined scope allowed h (h'.collect root) := by
  have hkept : ∀ id < h.next, (h'.collect root).scopes[id]? = h'.scopes[id]? →
      Kept scope allowed h (h'.collect root) id := by
    intro id hid heq
    have hk := hf.kept hid
    exact ⟨fun hne => heq.trans (hk.other hne), by rw [heq, hk.ancestors],
      fun name hn => (slot?_congr heq).trans (hk.slots name hn)⟩
  refine ⟨?_, fun id hid hs => ?_, fun id hid => ?_⟩
  · rw [collect_eq]
    exact hf.held
  · exact hkept id hid (scopes_collect_of_inUse (hf.inUse hs) root)
  · exact (scopes_collect_or_gone h' root id).imp_left (hkept id hid)

end Footprint

/-- More may be allowed. -/
theorem Footprint.imp {more : String → Prop} (hf : Footprint scope allowed h h')
    (hm : ∀ name, allowed name → more name) : Footprint scope more h h' where
  toLater := hf.toLater
  others := hf.others
  ancestors := hf.ancestors
  slots hs name hn := hf.slots hs name fun ha => hn (hm name ha)

end Heap

open Heap

/-! ## One evaluation -/

/-- The names that a program may bind in its scope: those it declares, and `$?` if it ends in a
value. -/
def Expr.MayBind (e : Expr) (succeeds : Bool) (name : String) : Prop :=
  name ∈ e.declared ∨ name = lastResult ∧ succeeds = true

section

variable {source : String} {e : Expr}

theorem evaluate_of_parse (hp : parse source = .ok e) (scope : ScopeId) (h : Heap) :
    evaluate source scope h = ((h.execute callLimit e scope).1.mapError .running,
      ((h.execute callLimit e scope).2.remember scope (h.execute callLimit e scope).1).collect
        ((h.execute callLimit e scope).2.rootOf scope)) := by
  rw [evaluate, hp]

/-- Counting the program apart, a program stays within its footprint. -/
theorem footprint_execute (limit : Nat) (e : Expr) (scope : ScopeId) (h : Heap) :
    Footprint scope (· ∈ e.declared) { h with programs := h.programs + 1 }
      (h.execute limit e scope).2 :=
  footprint_eval limit limit h.programs scope e _

/-- Binding the result stays within the footprint too. -/
theorem footprint_remember (limit : Nat) (e : Expr) (scope : ScopeId) (h : Heap) :
    Footprint scope (e.MayBind (h.execute limit e scope).1.isOk)
      { h with programs := h.programs + 1 }
      ((h.execute limit e scope).2.remember scope (h.execute limit e scope).1) := by
  have hf : Footprint scope (e.MayBind (h.execute limit e scope).1.isOk) _ _ :=
    (footprint_execute limit e scope h).imp fun _ hn => Or.inl hn
  cases hr : (h.execute limit e scope).1 with
  | error err =>
    rw [hr] at hf
    exact hf
  | ok v =>
    rw [hr] at hf
    exact hf.trans (Footprint.store (Or.inr ⟨rfl, rfl⟩) v _)

/-- An evaluation leaves alone what the host holds, and whether anything is given back. -/
theorem held_evaluate (source : String) (scope : ScopeId) (h : Heap) :
    (evaluate source scope h).2.held = h.held ∧
      (evaluate source scope h).2.reclaims = h.reclaims := by
  cases hp : parse source with
  | error err =>
    rw [evaluate, hp]
    exact ⟨rfl, rfl⟩
  | ok e =>
    have hf := footprint_remember callLimit e scope h
    rw [evaluate_of_parse hp, collect_eq]
    exact ⟨hf.held, hf.reclaims⟩

/-- What an evaluation may bind, counting from its beginning. -/
theorem confined_evaluate (hp : parse source = .ok e) (scope : ScopeId) (h : Heap) :
    Confined scope (e.MayBind (h.execute callLimit e scope).1.isOk) h
      (evaluate source scope h).2 := by
  rw [evaluate_of_parse hp]
  exact ((footprint_remember callLimit e scope h).confined_collect _).of_programs

/-- What it binds in addition to what its program has bound. -/
theorem confined_remember (hp : parse source = .ok e) (scope : ScopeId) (h : Heap) :
    Confined scope (fun name => name = lastResult ∧ (h.execute callLimit e scope).1.isOk = true)
      (h.execute callLimit e scope).2 (evaluate source scope h).2 := by
  rw [evaluate_of_parse hp]
  refine Footprint.confined_collect ?_ _
  cases (h.execute callLimit e scope).1 with
  | error err => exact Footprint.refl _
  | ok v => exact Footprint.store ⟨rfl, rfl⟩ v _

/-- The scope of a program is still there at its end. -/
theorem exists_scope_execute {scope : ScopeId} {h : Heap} (hlt : scope < h.next)
    (hs : scope ∈ h.scopes) (limit : Nat) (e : Expr) :
    ∃ t, (h.execute limit e scope).2.scopes[scope]? = some t := by
  obtain ⟨s, hs⟩ := mem_table_iff.1 hs
  obtain ⟨t, ht, -⟩ := Option.map_eq_some_iff.1
    (((footprint_execute limit e scope h).ancestors hlt).trans
      (congrArg (Option.map Scope.ancestors) hs))
  exact ⟨t, ht⟩

/-- A program that ends in a value leaves it as `$?`. -/
theorem local?_lastResult (hp : parse source = .ok e) {scope : ScopeId} {h : Heap} {v : Value}
    (hv : (h.execute callLimit e scope).1 = .ok v) (hlt : scope < h.next) (hs : scope ∈ h.scopes) :
    (h.Secure scope (e.MayBind true) scope →
      (evaluate source scope h).2.local? lastResult scope = some v) ∧
    ((evaluate source scope h).2.local? lastResult scope = some v ∨
      (evaluate source scope h).2.Gone scope) := by
  have hf := footprint_remember callLimit e scope h
  rw [hv] at hf
  rw [evaluate_of_parse hp, hv]
  obtain ⟨t, ht⟩ := exists_scope_execute hlt hs callLimit e
  have hbound : ∀ g : Heap, g.scopes[scope]? =
      ((h.execute callLimit e scope).2.store scope lastResult v).scopes[scope]? →
        g.local? lastResult scope = some v := by
    intro g heq
    rw [local?_eq, slot?_congr heq, slot?_store_self ht, Option.map_some, load_slotFor]
  refine ⟨fun hsecure => ?_, ?_⟩
  · exact hbound _ (scopes_collect_of_inUse (hf.inUse hsecure) _)
  · exact (scopes_collect_or_gone _ _ scope).imp_left (hbound _)

end

/-- **Evaluation writes only where it may.** -/
theorem evaluation_confined (limit depth program : Nat) (e : Expr) (f : Closure)
    (args : List Value) (line : Nat) (source : String) (scope : ScopeId) (h : Heap) :
    Footprint scope (· ∈ e.declared) h ((e.eval ⟨callAt limit depth, program, scope⟩).runOn h).2 ∧
    Keeps h ((callAt limit depth f args line).runOn h).2 ∧
    match parse source with
    | .error err => evaluate source scope h = (.error (.reading err), h)
    | .ok e =>
      let ran := (e.eval ⟨callAt callLimit callLimit, h.programs, scope⟩).runOn
        { h with programs := h.programs + 1 }
      let after := (evaluate source scope h).2
      (evaluate source scope h).1 = ran.1.mapError .running ∧
      Confined scope (e.MayBind ran.1.isOk) h after ∧
      Confined scope (fun name => name = lastResult ∧ ran.1.isOk = true) ran.2 after ∧
      ∀ v, ran.1 = .ok v → scope < h.next → scope ∈ h.scopes →
        (h.Secure scope (e.MayBind true) scope → after.local? lastResult scope = some v) ∧
        (after.local? lastResult scope = some v ∨ after.Gone scope) := by
  refine ⟨footprint_eval limit depth program scope e h, keeps_callAt limit depth f args line h, ?_⟩
  cases hp : parse source with
  | error err =>
    dsimp only
    rw [evaluate, hp]
  | ok e =>
    have hresult : (evaluate source scope h).1 =
        (h.execute callLimit e scope).1.mapError .running := by
      rw [evaluate_of_parse hp]
    exact ⟨hresult, confined_evaluate hp scope h, confined_remember hp scope h,
      fun v hv => local?_lastResult hp hv⟩

/-- A declaration in a child of a root with the standard libraries. -/
theorem evaluation_confined_assignment :
    let h := ((Heap.fresh 0).2.newChild 0).2.hold 1
    let after := (evaluate "a = 1" 1 h).2
    after.held = [1, 0] ∧ after.scopes[0]? = h.scopes[0]? ∧
      ∃ v, (evaluate "a = 1" 1 h).1 = .ok v ∧ after.local? lastResult 1 = some v := by
  intro h after
  have hok : (evaluate "a = 1" 1 h).1.isOk = true := by decide +kernel
  have hend := (evaluation_confined 0 0 0 default default [] 0 "a = 1" 1 h).2.2
  split at hend
  · rw [hend] at hok
    cases hok
  · obtain ⟨hresult, hconfined, -, hlast⟩ := hend
    refine ⟨hconfined.held, ?_, ?_⟩
    · have hroot : 0 ∈ h.held := List.mem_cons_of_mem 1 List.mem_cons_self
      exact (hconfined.secure 0 (by decide) (secure_of_held hroot)).other (by decide)
    · have hchild : 1 ∈ h.held := List.mem_cons_self
      rw [hresult] at hok ⊢
      generalize Prod.fst (Effect.runOn _ _) = result at hok hlast ⊢
      cases result with
      | error err => cases hok
      | ok v =>
        have hthere : 1 ∈ h.scopes := by decide +kernel
        exact ⟨v, rfl, (hlast v rfl (by decide) hthere).1 (secure_of_held hchild)⟩

end GeoScript
