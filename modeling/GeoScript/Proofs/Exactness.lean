import GeoScript.Proofs.Confinement
import GeoScript.Proofs.Rooted
import Mathlib.Data.Set.Card

/-!
# Reclamation is exact

**Sessions.** A host makes one root, and children of scopes that it holds. It evaluates texts in
scopes that it holds, and may let go of the root while it holds another scope (`Session`).

**Theorem (`liveFrames_exact`).** Let a host evaluate texts in scopes that it holds, and do nothing
else. Then it holds the same scopes throughout, and they stay, as the root does. The frames that are
there are those that the root and these scopes lead to, no more and no fewer, after every step and
however it ended. In each step, what they lead to when the program has ended stays as the program
has left it, and all else is given back.

**Proof.** Two facts are carried along the session. Nothing dangles (`Rooted`), so whatever is led
to is there. And everything there is led to (`Tight`): collecting keeps only what an anchor leads
to, and the one scope that is no frame is the root. Between collections nothing is lost, since a
new child is held, and since a root that is let go of is still referred to by its children.
-/

namespace GeoScript

namespace Heap

variable {root id i j p scope : ScopeId} {h h' : Heap} {s : Scope}

/-- One of the scopes leads to `id`. -/
def Reached (h : Heap) (starts : List ScopeId) (id : ScopeId) : Prop := ∃ s ∈ starts, h.Leads s id

/-- All scopes but the root are led to, by the root or by a scope that a host holds. -/
def Tight (root : ScopeId) (h : Heap) : Prop :=
  ∀ id ∈ h.scopes, id ≠ root → h.Reached (root :: h.held) id

/-! ## Collecting -/

theorem later_collect (h : Heap) (root : ScopeId) : Later h (h.collect root) := by
  rw [collect_eq]
  exact ⟨Nat.le_refl _, rfl, rfl, rfl, rfl⟩

namespace Rooted

theorem root_not_mem_garbage (hr : Rooted root h) : root ∉ (h.frameGraph root).garbage := by
  intro hg
  exact (hr.mem_frames_iff.1 (mem_garbage_iff.1 hg).1).2 rfl

theorem mem_start (hr : Rooted root h) (hs : i ∈ root :: h.held) : i ∈ h.scopes := by
  rcases List.mem_cons.1 hs with rfl | hs
  · exact hr.mem_root
  · exact hr.held i hs

theorem start_not_mem_garbage (hr : Rooted root h) (hs : i ∈ root :: h.held) :
    i ∉ (h.frameGraph root).garbage := by
  rcases List.mem_cons.1 hs with rfl | hs
  · exact hr.root_not_mem_garbage
  · exact not_mem_garbage_of_held hs

theorem mem_collect (hr : Rooted root h) :
    id ∈ (h.collect root).scopes ↔ id ∈ h.scopes ∧ id ∉ (h.frameGraph root).garbage := by
  rw [mem_table_iff, mem_table_iff, scopes_collect hr.reclaims]
  split
  · next hg => simp [hg]
  · next hg => simp [hg]

/-- Collecting leaves nothing dangling. -/
theorem collect (hr : Rooted root h) : Rooted root (h.collect root) := by
  have hnext : (h.collect root).next = h.next := by rw [collect_eq]
  refine hr.restrict (later_collect h root) hnext ?_ ?_ ?_ ?_
  · intro i
    rw [scopes_collect hr.reclaims]
    split
    · exact Or.inr rfl
    · exact Or.inl rfl
  · exact hr.mem_collect.2 ⟨hr.mem_root, hr.root_not_mem_garbage⟩
  · intro i hi
    exact hr.mem_collect.2 ⟨hr.held i hi, not_mem_garbage_of_held hi⟩
  · intro i j hi hij
    refine hr.mem_collect.2 ⟨hr.mem_of_refers hij, ?_⟩
    exact not_mem_garbage_of_refers hij (hr.mem_collect.1 hi).2

/-- The one scope that is no frame of the root is the root. -/
theorem eq_root_of_not_frame (hr : Rooted root h) (hs : h.scopes[i]? = some s)
    (hlast : s.ancestors.getLast? ≠ some root) : i = root := by
  refine Classical.byContradiction fun hne => ?_
  obtain ⟨-, -, -, h'⟩ := hr.frame i s hs hne
  exact hlast h'

theorem reached_of_not_mem_garbage (hr : Rooted root h) (hid : id ∈ h.scopes)
    (hg : id ∉ (h.frameGraph root).garbage) : h.Reached (root :: h.held) id := by
  by_cases hne : id = root
  · exact ⟨root, List.mem_cons_self, hne ▸ .refl⟩
  · obtain ⟨s, hs⟩ := hr.mem_frames_iff.2 ⟨hid, hne⟩
    rcases leads_of_not_mem_garbage hs hg with ⟨i, hi, hl⟩ | ⟨i, t, ht, hlast, hl⟩
    · exact ⟨i, List.mem_cons_of_mem root hi, hl⟩
    · exact ⟨root, List.mem_cons_self, hr.eq_root_of_not_frame ht hlast ▸ hl⟩

/-- **Collecting leaves what is led to as it is.** -/
theorem scopes_collect_of_reached (hr : Rooted root h) (hid : h.Reached (root :: h.held) id) :
    (h.collect root).scopes[id]? = h.scopes[id]? := by
  obtain ⟨i, hi, hl⟩ := hid
  rw [scopes_collect hr.reclaims, if_neg]
  exact not_mem_garbage_of_leads hl (hr.start_not_mem_garbage hi)

/-- **Collecting takes everything else.** -/
theorem scopes_collect_of_not_reached (hr : Rooted root h)
    (hid : ¬ h.Reached (root :: h.held) id) : (h.collect root).scopes[id]? = none := by
  rw [scopes_collect hr.reclaims]
  split
  · rfl
  · next hg =>
    cases hs : h.scopes[id]? with
    | none => rfl
    | some s => exact absurd (hr.reached_of_not_mem_garbage (mem_table_iff.2 ⟨s, hs⟩) hg) hid

theorem tight_collect (hr : Rooted root h) : Tight root (h.collect root) := by
  intro id hid hne
  obtain ⟨hmem, hg⟩ := hr.mem_collect.1 hid
  obtain ⟨i, hi, hl⟩ := hr.reached_of_not_mem_garbage hmem hg
  refine ⟨i, ?_, hl.congr fun a ha => hr.scopes_collect_of_reached ⟨i, hi, ha⟩⟩
  rw [(later_collect h root).held]
  exact hi

end Rooted

/-! ## Letting go of the root -/

/-- Every scope leads to the root, through its parents. -/
theorem Rooted.leads_root (hr : Rooted root h) (hp : p ∈ h.scopes) : h.Leads p root := by
  obtain ⟨s, hs⟩ := mem_table_iff.1 hp
  -- On the number of ancestors: the parent has one less.
  induction hn : s.ancestors.length generalizing p s with
  | zero =>
    by_cases hroot : p = root
    · exact hroot ▸ .refl
    · obtain ⟨q, -, hanc, -⟩ := hr.frame p s hs hroot
      simp [hanc, chain] at hn
  | succ n ih =>
    by_cases hroot : p = root
    · exact hroot ▸ .refl
    · obtain ⟨q, hq, hanc, -⟩ := hr.frame p s hs hroot
      obtain ⟨t, ht⟩ := mem_table_iff.1 hq
      refine .head ⟨s, hs, ?_⟩ (ih hq t ht ?_)
      · simp [Scope.references, Scope.parent?, hanc, chain]
      · simpa [hanc, chain, ht] using hn

theorem pos_references (hr : h.Refers i j ∨ j ∈ h.held) : 0 < h.references.getD j 0 := by
  rw [references, getD_tally, List.count_pos_iff, List.mem_append]
  rcases hr with ⟨s, hs, hj⟩ | hj
  · refine Or.inl (List.mem_flatMap.2 ⟨s, ?_, hj⟩)
    rw [values_eq_map_toList]
    exact List.mem_map.2 ⟨(i, s), Std.TreeMap.mem_toList_iff_getElem?_eq_some.2 hs, rfl⟩
  · exact Or.inr hj

/-- Where everything is referred to, nothing is swept away. -/
theorem sweep_eq_self (hu : ∀ id ∈ h.scopes, 0 < h.references.getD id 0) : h.sweep = h := by
  have hunused : (h.scopes.keys.filter fun id => h.references.getD id 0 == 0) = [] := by
    rw [List.filter_eq_nil_iff]
    intro id hid
    have := hu id (Std.TreeMap.mem_keys.1 hid)
    simp
    omega
  have hrounds : ∀ n, sweepRounds n h = h := by
    intro n
    cases n with
    | zero => rfl
    | succ n => simp [sweepRounds, hunused]
  unfold sweep
  split
  · exact hrounds _
  · rfl

/-- A root that is let go of stays as long as another scope is held, and so does all else. -/
theorem Rooted.letGo_eq (hr : Rooted root h) (ht : Tight root h) (hc : ∃ c ∈ h.held, c ≠ root) :
    h.letGo root = { h with held := h.held.erase root } := by
  have hstay : ∀ c ∈ h.held, c ≠ root → c ∈ h.held.erase root :=
    fun c hc hne => (List.mem_erase_of_ne hne).2 hc
  -- A chain of references that is not empty ends with one to the scope in question.
  have hlast : ∀ a id, h.Leads a id → a ≠ id → ∃ b, h.Refers b id := by
    intro a id hl hne
    cases hl with
    | refl => exact absurd rfl hne
    | tail _ hbc => exact ⟨_, hbc⟩
  refine sweep_eq_self fun id hid => ?_
  by_cases hroot : id = root
  · subst hroot
    obtain ⟨c, hc, hne⟩ := hc
    obtain ⟨b, hb⟩ := hlast c id (hr.leads_root (hr.held c hc)) hne
    exact pos_references (Or.inl hb)
  · obtain ⟨a, ha, hl⟩ := ht id hid hroot
    by_cases hai : a = id
    · subst hai
      have ha := (List.mem_cons.1 ha).resolve_left hroot
      exact pos_references (i := 0) (Or.inr (hstay a ha hroot))
    · obtain ⟨b, hb⟩ := hlast a id hl hai
      exact pos_references (Or.inl hb)

end Heap

open Heap

/-! ## Sessions -/

/-- The heaps that a host comes by with one root. -/
inductive Session : ScopeId → Heap → Prop
  | start (libraries : Bool) (draws : Draws) :
    Session (Heap.start libraries draws).1 (Heap.start libraries draws).2
  /-- A child of a scope that is held, held from now on. -/
  | child {root parent : ScopeId} {h : Heap} : Session root h → parent ∈ h.held →
    Session root ((h.newChild parent).2.hold h.next)
  | letGo {root : ScopeId} {h : Heap} : Session root h → (∃ c ∈ h.held, c ≠ root) →
    Session root (h.letGo root)
  | evaluate {root scope : ScopeId} {h : Heap} (source : String) : Session root h →
    scope ∈ h.held → Session root (evaluate source scope h).2

section

variable {root parent scope : ScopeId} {h : Heap}

theorem tight_start (libraries : Bool) (draws : Draws) : Tight 0 (Heap.start libraries draws).2 := by
  have honly : ∀ id ∈ (Heap.start libraries draws).2.scopes, id = 0 := by
    refine start_induction (P := fun h => ∀ id ∈ h.scopes, id = 0) libraries draws ?_ ?_
    · intro id hid
      simp [hold, newRoot, add, Heap.empty] at hid
      exact hid.symm
    · intro h name v hh _ id hid
      exact hh id (mem_scopes_store.1 hid)
  intro id hid hne
  exact absurd (honly id hid) hne

theorem rooted_child (hr : Rooted root h) (hp : parent ∈ h.held) :
    Rooted root ((h.newChild parent).2.hold h.next) := by
  have hc := hr.newChild (hr.held parent hp)
  refine ⟨hc.below, hc.top, hc.frame, hc.captures, ?_, hc.reclaims⟩
  intro id hid
  rcases List.mem_cons.1 hid with rfl | hid
  · exact Rooted.mem_newChild.2 (Or.inl rfl)
  · exact hc.held id hid

theorem tight_child (hr : Rooted root h) (ht : Tight root h) :
    Tight root ((h.newChild parent).2.hold h.next) := by
  intro id hid hne
  rcases Rooted.mem_newChild.1 hid with rfl | hid
  · exact ⟨h.next, List.mem_cons_of_mem root List.mem_cons_self, .refl⟩
  · obtain ⟨i, hi, hl⟩ := ht id hid hne
    refine ⟨i, ?_, hl.congr fun a ha => ?_⟩
    · exact List.cons_subset_cons root (List.subset_cons_self h.next h.held) hi
    · have hmem : a ∈ h.scopes := hr.mem_of_leads ha (hr.mem_start hi)
      exact scopes_newChild_ne fun heq => hr.next_notMem (heq ▸ hmem)

theorem rooted_letGo (hr : Rooted root h) (ht : Tight root h) (hc : ∃ c ∈ h.held, c ≠ root) :
    Rooted root (h.letGo root) ∧ Tight root (h.letGo root) := by
  rw [hr.letGo_eq ht hc]
  refine ⟨⟨hr.below, hr.top, hr.frame, hr.captures, ?_, hr.reclaims⟩, ?_⟩
  · intro id hid
    exact hr.held id (List.mem_of_mem_erase hid)
  · intro id hid hne
    obtain ⟨i, hi, hl⟩ := ht id hid hne
    refine ⟨i, ?_, hl⟩
    rw [List.mem_cons] at hi ⊢
    by_cases hroot : i = root
    · exact Or.inl hroot
    · exact Or.inr ((List.mem_erase_of_ne hroot).2 (hi.resolve_left hroot))

/-- Binding a result changes no chain. -/
theorem rootOf_remember (r : Except EvalError Value) (h : Heap) :
    (h.remember scope r).rootOf scope = h.rootOf scope := by
  cases r with
  | error err => rfl
  | ok v => rw [rootOf, rootOf, remember, chain_congr ancestors_store]

/-- The heap that a program has left, its result bound to `$?`, and nothing given back yet. -/
def Heap.leftBy (e : Expr) (scope : ScopeId) (h : Heap) : Heap :=
  (h.execute callLimit e scope).2.remember scope (h.execute callLimit e scope).1

theorem evaluate_eq_collect (hr : Rooted root h) (hs : scope ∈ h.scopes) {source : String}
    {e : Expr} (hp : parse source = .ok e) :
    Rooted root (h.leftBy e scope) ∧
      (evaluate source scope h).2 = (h.leftBy e scope).collect root := by
  obtain ⟨hr', hle⟩ := hr.execute_remember hs callLimit e
  refine ⟨hr', ?_⟩
  rw [evaluate_of_parse hp, ← rootOf_remember (h.execute callLimit e scope).1,
    hr'.rootOf_eq (hle scope hs)]
  rfl

theorem rooted_evaluate (hr : Rooted root h) (ht : Tight root h) (hs : scope ∈ h.scopes)
    (source : String) : Rooted root (GeoScript.evaluate source scope h).2 ∧
      Tight root (GeoScript.evaluate source scope h).2 := by
  cases hp : parse source with
  | error err =>
    rw [GeoScript.evaluate, hp]
    exact ⟨hr, ht⟩
  | ok e =>
    obtain ⟨hr', heq⟩ := evaluate_eq_collect hr hs hp
    rw [heq]
    exact ⟨hr'.collect, hr'.tight_collect⟩

/-- **An evaluation gives back exactly what is no longer led to** when its program has ended. -/
theorem scopes_evaluate (hr : Rooted root h) (hs : scope ∈ h.scopes) {source : String} {e : Expr}
    (hp : parse source = .ok e) (id : ScopeId) :
    ((h.leftBy e scope).Reached (root :: h.held) id →
      (evaluate source scope h).2.scopes[id]? = (h.leftBy e scope).scopes[id]?) ∧
    (¬ (h.leftBy e scope).Reached (root :: h.held) id →
      (evaluate source scope h).2.scopes[id]? = none) := by
  obtain ⟨hr', heq⟩ := evaluate_eq_collect hr hs hp
  have hheld : (h.leftBy e scope).held = h.held := (footprint_remember callLimit e scope h).held
  rw [heq, ← hheld]
  exact ⟨hr'.scopes_collect_of_reached, hr'.scopes_collect_of_not_reached⟩

/-- In a session nothing dangles and everything is led to. -/
theorem Session.rooted (hs : Session root h) : Rooted root h ∧ Tight root h := by
  induction hs with
  | start libraries draws =>
    rw [start_fst]
    exact ⟨rooted_start libraries draws, tight_start libraries draws⟩
  | child _ hp ih => exact ⟨rooted_child ih.1 hp, tight_child ih.1 ih.2⟩
  | letGo _ hc ih => exact rooted_letGo ih.1 ih.2 hc
  | evaluate source _ hs ih => exact rooted_evaluate ih.1 ih.2 (ih.1.held _ hs) source

/-- The scopes that are led to, the root apart, are the frames of the root. -/
theorem mem_frames_iff_reached (hr : Rooted root h) (ht : Tight root h) (id : ScopeId) :
    id ∈ (h.frames root).map Prod.fst ↔ id ≠ root ∧ h.Reached (root :: h.held) id := by
  have hmem : id ∈ (h.frames root).map Prod.fst ↔ id ∈ h.scopes ∧ id ≠ root := by
    rw [← hr.mem_frames_iff]
    simp
  rw [hmem]
  constructor
  · rintro ⟨hid, hne⟩
    exact ⟨hne, ht id hid hne⟩
  · rintro ⟨hne, i, hi, hl⟩
    exact ⟨hr.mem_of_leads hl (hr.mem_start hi), hne⟩

/-- The frames that are there are as many as are led to. -/
theorem encard_reached (hr : Rooted root h) (ht : Tight root h) :
    {id | id ≠ root ∧ h.Reached (root :: h.held) id}.encard = h.liveFrames root := by
  have hset : {id | id ≠ root ∧ h.Reached (root :: h.held) id} =
      (((h.frames root).map Prod.fst).toFinset : Set ScopeId) := by
    ext id
    rw [Finset.mem_coe, List.mem_toFinset, mem_frames_iff_reached hr ht]
    rfl
  rw [hset, Set.encard_coe_eq_coe_finsetCard, List.toFinset_card_of_nodup (nodup_frames h root),
    List.length_map]
  rfl

/-! ## Evaluating and nothing else -/

/-- Evaluates texts one after the other, each in its scope. -/
def Heap.evaluateAll (steps : List (String × ScopeId)) (h : Heap) : Heap :=
  steps.foldl (fun h step => (evaluate step.1 step.2 h).2) h

/-- A host that only evaluates holds the same scopes throughout. -/
theorem Session.evaluateAll {steps : List (String × ScopeId)} (hs : Session root h)
    (hsteps : ∀ step ∈ steps, step.2 ∈ h.held) :
    Session root (h.evaluateAll steps) ∧ (h.evaluateAll steps).held = h.held := by
  induction steps generalizing h with
  | nil => exact ⟨hs, rfl⟩
  | cons step steps ih =>
    obtain ⟨hstep, hsteps⟩ := List.forall_mem_cons.1 hsteps
    have hheld := (held_evaluate step.1 step.2 h).1
    obtain ⟨hafter, hrest⟩ := ih (hs.evaluate step.1 hstep) (by rw [hheld]; exact hsteps)
    exact ⟨hafter, hrest.trans hheld⟩

end

/-- **Reclamation is exact.** -/
theorem liveFrames_exact {root : ScopeId} {h : Heap} (hs : Session root h)
    {steps : List (String × ScopeId)} (hsteps : ∀ step ∈ steps, step.2 ∈ h.held) :
    let after := h.evaluateAll steps
    after.held = h.held ∧ (∀ id ∈ root :: h.held, id ∈ after.scopes) ∧
      {id | id ≠ root ∧ after.Reached (root :: h.held) id}.encard = after.liveFrames root ∧
      ∀ source e, parse source = .ok e → ∀ scope ∈ h.held, ∀ id,
        ((after.leftBy e scope).Reached (root :: h.held) id →
          (evaluate source scope after).2.scopes[id]? = (after.leftBy e scope).scopes[id]?) ∧
        (¬ (after.leftBy e scope).Reached (root :: h.held) id →
          (evaluate source scope after).2.scopes[id]? = none) := by
  intro after
  obtain ⟨hafter, hheld⟩ := hs.evaluateAll hsteps
  obtain ⟨hr, ht⟩ := hafter.rooted
  rw [← hheld]
  exact ⟨rfl, fun id hid => hr.mem_start hid, encard_reached hr ht,
    fun source e hp scope hscope id => scopes_evaluate hr (hr.held scope hscope) hp id⟩

/-- A closure that has outlived its call, bound in a child of a root with the standard libraries;
then a text that cannot be read, and one that fails in the root. -/
theorem liveFrames_exact_closure :
    let h := ((Heap.start true 0).2.newChild 0).2.hold 1
    let steps := [("f = Function(a => Function(x => x + a))(1)", 1), ("f(", 1), ("f(1)", 0)]
    let after := h.evaluateAll steps
    Session 0 h ∧ (∀ step ∈ steps, step.2 ∈ h.held) ∧ after.held = [1, 0] ∧
      {id | id ≠ 0 ∧ after.Reached [0, 1, 0] id}.encard = after.liveFrames 0 := by
  intro h steps after
  have hs : Session 0 h := .child (.start true 0) List.mem_cons_self
  have hsteps : ∀ step ∈ steps, step.2 ∈ [1, 0] := by decide
  obtain ⟨hheld, -, hcount, -⟩ := liveFrames_exact hs hsteps
  exact ⟨hs, hsteps, hheld, hcount⟩

end GeoScript
