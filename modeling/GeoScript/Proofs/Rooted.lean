import GeoScript.Proofs.Calls
import GeoScript.Proofs.Reachability

/-!
# Heaps with one root

**The invariant.** All scopes of a heap are one root and its frames. Whatever a scope refers to is
there, and whatever a host holds is there (`Rooted`). So nothing dangles.

**Giving a frame back** keeps the invariant although nothing checks that the frame is unused. Older
scopes were there before the frame was made, and a call leaves them as they were, so they do not
refer to it. If there are younger scopes, the frame is kept and only loses its bindings.

**Theorem (`Rooted.execute_remember`).** Every program keeps the invariant.
-/

namespace GeoScript

/-! ## Captured scopes -/

namespace Heap

variable {root id i j p c : ScopeId} {h h' : Heap} {s : Scope} {name : String} {v : Value}

/-- A slot captures a scope only if it was made for a closure of that scope. -/
theorem captured?_slotFor (hc : (h.slotFor id v).captured? = some c) :
    ∃ f, v = .closure ⟨f, c⟩ := by
  unfold slotFor at hc
  cases v with
  | closure f =>
    refine ⟨f.lambda, ?_⟩
    by_cases hr : h.reclaims = true
    · rw [if_pos hr, Slot.store] at hc
      split at hc
      · cases hc
      · rw [← Option.some.inj hc]
    · rw [if_neg hr] at hc
      rw [← Option.some.inj hc]
  | _ => split at hc <;> cases hc

/-- What a scope captures after a name was bound, it captured before or the value brought it. -/
theorem mem_captures_store (hs : (h.store id name v).scopes[id]? = some s) (hc : c ∈ s.captures) :
    (∃ t, h.scopes[id]? = some t ∧ c ∈ t.captures) ∨ ∃ f, v = .closure ⟨f, c⟩ := by
  rw [scopes_store_self] at hs
  obtain ⟨t, ht, rfl⟩ := Option.map_eq_some_iff.1 hs
  obtain ⟨other, slot, hslot, hcap⟩ := Scope.mem_captures.1 hc
  rw [Std.TreeMap.getElem?_insert] at hslot
  split at hslot
  · obtain rfl := Option.some.inj hslot
    exact Or.inr (captured?_slotFor hcap)
  · exact Or.inl ⟨t, ht, Scope.mem_captures.2 ⟨other, slot, hslot, hcap⟩⟩

/-- A scope without bindings captures nothing. -/
theorem captures_unbound (ancestors : List ScopeId) : (⟨∅, ancestors⟩ : Scope).captures = [] := by
  refine List.eq_nil_iff_forall_not_mem.2 fun c hc => ?_
  obtain ⟨name, slot, hslot, -⟩ := Scope.mem_captures.1 hc
  simp at hslot

/-! ## The invariant -/

/-- All scopes are the root and its frames, and whatever is referred to is there. -/
structure Rooted (root : ScopeId) (h : Heap) : Prop where
  below : ∀ id ∈ h.scopes, id < h.next
  top : ∃ s, h.scopes[root]? = some s ∧ s.ancestors = []
  frame : ∀ (id : ScopeId) (s : Scope), h.scopes[id]? = some s → id ≠ root →
    ∃ p ∈ h.scopes, s.ancestors = h.chain p ∧ s.ancestors.getLast? = some root
  captures : ∀ (id : ScopeId) (s : Scope), h.scopes[id]? = some s → ∀ c ∈ s.captures, c ∈ h.scopes
  held : ∀ id ∈ h.held, id ∈ h.scopes
  reclaims : h.reclaims = true

namespace Rooted

theorem mem_root (hr : Rooted root h) : root ∈ h.scopes := by
  obtain ⟨s, hs, -⟩ := hr.top
  exact mem_table_iff.2 ⟨s, hs⟩

/-- Whatever a scope refers to is there. -/
theorem mem_of_refers (hr : Rooted root h) (hij : h.Refers i j) : j ∈ h.scopes := by
  obtain ⟨s, hs, hj⟩ := hij
  rcases List.mem_append.1 hj with hj | hj
  · by_cases hi : i = root
    · obtain ⟨t, ht, hnil⟩ := hr.top
      rw [hi, ht] at hs
      obtain rfl := Option.some.inj hs
      simp [Scope.parent?, hnil] at hj
    · obtain ⟨p, hp, hanc, -⟩ := hr.frame i s hs hi
      have hjp : j = p := by
        simpa [Scope.parent?, hanc, chain, eq_comm] using hj
      exact hjp ▸ hp
  · exact hr.captures i s hs j hj

theorem mem_of_leads (hr : Rooted root h) (hl : h.Leads i j) (hi : i ∈ h.scopes) :
    j ∈ h.scopes := by
  cases hl with
  | refl => exact hi
  | tail _ hbc => exact hr.mem_of_refers hbc

/-- The chain of every scope ends in the root. -/
theorem getLast?_chain (hr : Rooted root h) (hp : p ∈ h.scopes) :
    (h.chain p).getLast? = some root := by
  obtain ⟨s, hs⟩ := mem_table_iff.1 hp
  rw [chain, hs]
  by_cases hroot : p = root
  · obtain ⟨t, ht, hnil⟩ := hr.top
    rw [hroot, ht] at hs
    obtain rfl := Option.some.inj hs
    simp [hnil, hroot]
  · obtain ⟨q, -, -, hlast⟩ := hr.frame p s hs hroot
    simp [List.getLast?_cons, hlast]

theorem rootOf_eq (hr : Rooted root h) (hp : p ∈ h.scopes) : h.rootOf p = root := by
  rw [rootOf, List.getLastD_eq_getLast?, hr.getLast?_chain hp]
  rfl

/-- The frames of the root are all scopes but the root. -/
theorem mem_frames_iff (hr : Rooted root h) :
    (∃ s, (id, s) ∈ h.frames root) ↔ id ∈ h.scopes ∧ id ≠ root := by
  constructor
  · rintro ⟨s, hs⟩
    obtain ⟨hget, hlast⟩ := mem_frames.1 hs
    refine ⟨mem_table_iff.2 ⟨s, hget⟩, fun hid => ?_⟩
    obtain ⟨t, ht, hnil⟩ := hr.top
    rw [hid, ht] at hget
    obtain rfl := Option.some.inj hget
    simp [hnil] at hlast
  · rintro ⟨hid, hne⟩
    obtain ⟨s, hs⟩ := mem_table_iff.1 hid
    obtain ⟨-, -, -, hlast⟩ := hr.frame id s hs hne
    exact ⟨s, mem_frames.2 ⟨hs, hlast⟩⟩

/-! ## Changes that keep the invariant -/

/-- Changing what is bound keeps the invariant if only scopes that are there get captured. -/
theorem update (hr : Rooted root h) (hlater : Later h h') (hnext : h'.next = h.next)
    (hanc : ∀ id : ScopeId,
      h'.scopes[id]?.map Scope.ancestors = h.scopes[id]?.map Scope.ancestors)
    (hcap : ∀ (id : ScopeId) (s : Scope), h'.scopes[id]? = some s → ∀ c ∈ s.captures,
      c ∈ h.scopes) : Rooted root h' := by
  have hget : ∀ (id : ScopeId) (s : Scope), h'.scopes[id]? = some s →
      ∃ t, h.scopes[id]? = some t ∧ t.ancestors = s.ancestors := by
    intro id s hs
    have hid := hanc id
    rw [hs, Option.map_some] at hid
    exact Option.map_eq_some_iff.1 hid.symm
  have hmem : ∀ id : ScopeId, id ∈ h'.scopes ↔ id ∈ h.scopes := by
    intro id
    rw [Std.TreeMap.mem_iff_isSome_getElem?, Std.TreeMap.mem_iff_isSome_getElem?,
      ← Option.isSome_map (f := Scope.ancestors), hanc id, Option.isSome_map]
  refine ⟨?_, ?_, ?_, ?_, ?_, hlater.reclaims.trans hr.reclaims⟩
  · intro id hid
    rw [hnext]
    exact hr.below id ((hmem id).1 hid)
  · obtain ⟨t, ht, hnil⟩ := hr.top
    have hroot := hanc root
    rw [ht, Option.map_some] at hroot
    obtain ⟨s, hs, hst⟩ := Option.map_eq_some_iff.1 hroot
    exact ⟨s, hs, hst.trans hnil⟩
  · intro id s hs hne
    obtain ⟨t, ht, hts⟩ := hget id s hs
    obtain ⟨p, hp, hchain, hlast⟩ := hr.frame id t ht hne
    rw [← hts]
    exact ⟨p, (hmem p).2 hp, hchain.trans (chain_congr (hanc p)).symm, hlast⟩
  · intro id s hs c hc
    exact (hmem c).2 (hcap id s hs c hc)
  · intro id hid
    rw [hlater.held] at hid
    exact (hmem id).2 (hr.held id hid)

/-- Removing scopes keeps the invariant if what stays refers only to what stays. -/
theorem restrict (hr : Rooted root h) (hlater : Later h h') (hnext : h'.next = h.next)
    (hsub : ∀ id : ScopeId, h'.scopes[id]? = h.scopes[id]? ∨ h'.scopes[id]? = none)
    (hroot : root ∈ h'.scopes) (hheld : ∀ id ∈ h.held, id ∈ h'.scopes)
    (hrefers : ∀ i j, i ∈ h'.scopes → h.Refers i j → j ∈ h'.scopes) : Rooted root h' := by
  have hget : ∀ (id : ScopeId) (s : Scope), h'.scopes[id]? = some s → h.scopes[id]? = some s := by
    intro id s hs
    rcases hsub id with heq | hnone
    · exact heq.symm.trans hs
    · rw [hnone] at hs
      cases hs
  refine ⟨?_, ?_, ?_, ?_, ?_, hlater.reclaims.trans hr.reclaims⟩
  · intro id hid
    obtain ⟨s, hs⟩ := mem_table_iff.1 hid
    rw [hnext]
    exact hr.below id (mem_table_iff.2 ⟨s, hget id s hs⟩)
  · obtain ⟨t, ht⟩ := mem_table_iff.1 hroot
    obtain ⟨s, hs, hnil⟩ := hr.top
    obtain rfl := Option.some.inj (hs.symm.trans (hget root t ht))
    exact ⟨s, ht, hnil⟩
  · intro id s hs hne
    obtain ⟨p, -, hchain, hlast⟩ := hr.frame id s (hget id s hs) hne
    have hp : p ∈ h'.scopes := by
      refine hrefers id p (mem_table_iff.2 ⟨s, hs⟩) ⟨s, hget id s hs, ?_⟩
      simp [Scope.references, Scope.parent?, hchain, chain]
    obtain ⟨t, ht⟩ := mem_table_iff.1 hp
    refine ⟨p, hp, hchain.trans (chain_congr ?_), hlast⟩
    rw [ht, hget p t ht]
  · intro id s hs c hc
    exact hrefers id c (mem_table_iff.2 ⟨s, hs⟩)
      ⟨s, hget id s hs, List.mem_append_right _ hc⟩
  · intro id hid
    rw [hlater.held] at hid
    exact hheld id hid

theorem store (hr : Rooted root h) (hv : ∀ f c, v = .closure ⟨f, c⟩ → c ∈ h.scopes) :
    Rooted root (h.store id name v) := by
  refine hr.update (Later.store h id name v) rfl (fun _ => ancestors_store) ?_
  intro i s hs c hc
  by_cases hi : i = id
  · subst hi
    rcases mem_captures_store hs hc with ⟨t, ht, hct⟩ | ⟨f, rfl⟩
    · exact hr.captures i t ht c hct
    · exact hv f c rfl
  · rw [scopes_store_ne hi] at hs
    exact hr.captures i s hs c hc

theorem random (hr : Rooted root h) : Rooted root h.random.2 := by
  obtain ⟨draws, heq⟩ := random_eq h
  rw [heq]
  exact ⟨hr.below, hr.top, hr.frame, hr.captures, hr.held, hr.reclaims⟩

theorem program (hr : Rooted root h) : Rooted root { h with programs := h.programs + 1 } :=
  ⟨hr.below, hr.top, hr.frame, hr.captures, hr.held, hr.reclaims⟩

theorem next_notMem (hr : Rooted root h) : h.next ∉ h.scopes :=
  fun hmem => Nat.lt_irrefl _ (hr.below _ hmem)

theorem mem_newChild : id ∈ (h.newChild p).2.scopes ↔ id = h.next ∨ id ∈ h.scopes := by
  rw [Heap.newChild, add, Std.TreeMap.mem_insert, Nat.compare_eq_eq, eq_comm]

theorem newChild (hr : Rooted root h) (hp : p ∈ h.scopes) : Rooted root (h.newChild p).2 := by
  have hold : ∀ i : ScopeId, i ∈ h.scopes → (h.newChild p).2.scopes[i]? = h.scopes[i]? :=
    fun i hi => scopes_newChild_ne fun heq => hr.next_notMem (heq ▸ hi)
  have hget : ∀ (i : ScopeId) (s : Scope), (h.newChild p).2.scopes[i]? = some s →
      i = h.next ∧ s = ⟨∅, h.chain p⟩ ∨ h.scopes[i]? = some s := by
    intro i s hs
    by_cases hi : i = h.next
    · subst hi
      rw [scopes_newChild_self] at hs
      exact Or.inl ⟨rfl, (Option.some.inj hs).symm⟩
    · rw [scopes_newChild_ne hi] at hs
      exact Or.inr hs
  have hchain : ∀ q ∈ h.scopes, (h.newChild p).2.chain q = h.chain q :=
    fun q hq => chain_congr (by rw [hold q hq])
  refine ⟨?_, ?_, ?_, ?_, ?_, hr.reclaims⟩
  · intro i hi
    rcases mem_newChild.1 hi with rfl | hi
    · exact Nat.lt_succ_self _
    · exact Nat.lt_succ_of_lt (hr.below i hi)
  · obtain ⟨s, hs, hnil⟩ := hr.top
    exact ⟨s, (hold root hr.mem_root).trans hs, hnil⟩
  · intro i s hs hne
    rcases hget i s hs with ⟨-, rfl⟩ | hs
    · exact ⟨p, mem_newChild.2 (Or.inr hp), (hchain p hp).symm, hr.getLast?_chain hp⟩
    · obtain ⟨q, hq, hanc, hlast⟩ := hr.frame i s hs hne
      exact ⟨q, mem_newChild.2 (Or.inr hq), hanc.trans (hchain q hq).symm, hlast⟩
  · intro i s hs c hc
    rcases hget i s hs with ⟨-, rfl⟩ | hs
    · rw [captures_unbound] at hc
      cases hc
    · exact mem_newChild.2 (Or.inr (hr.captures i s hs c hc))
  · intro i hi
    exact mem_newChild.2 (Or.inr (hr.held i hi))

/-- A frame can be given back when the older scopes are as they were before it was made. -/
theorem release (hr : Rooted root h) (hr' : Rooted root h') (hk : Keeps h (h'.release h.next)) :
    Rooted root (h'.release h.next) := by
  have hlater : Later h' (h'.release h.next) := Later.leave h.next (.ok .unit) h'
  have hnext : (h'.release h.next).next = h'.next := next_leave h.next (.ok .unit) h'
  have hkeeps : ∀ i < h.next, h'.scopes[i]? = h.scopes[i]? := by
    intro i hi
    rw [← hk.scopes i hi, scopes_release_ne (Nat.ne_of_lt hi)]
  have hstay : ∀ i ∈ h.scopes, i ∈ (h'.release h.next).scopes := by
    intro i hi
    rw [Std.TreeMap.mem_iff_isSome_getElem?, hk.scopes i (hr.below i hi)]
    exact Std.TreeMap.mem_iff_isSome_getElem?.1 hi
  by_cases hmax : h'.scopes.maxKey? = some h.next
  · -- No scope is younger, so all that stays is as it was before the frame was made.
    have hrel : (h'.release h.next).scopes = h'.scopes.erase h.next := by
      simp [Heap.release, hr'.reclaims, hmax]
    have holder : ∀ i, i ∈ (h'.release h.next).scopes → i < h.next := by
      intro i hi
      rw [hrel, Std.TreeMap.mem_erase] at hi
      have hle := (Std.TreeMap.maxKey?_eq_some_iff_mem_and_forall.1 hmax).2 i hi.2
      have hne : h.next ≠ i := by simpa using hi.1
      exact Nat.lt_of_le_of_ne (Nat.isLE_compare.1 hle) (Ne.symm hne)
    refine hr'.restrict hlater hnext ?_ (hstay root hr.mem_root) ?_ ?_
    · intro i
      by_cases hi : i = h.next
      · subst hi
        rw [hrel]
        exact Or.inr (by simp)
      · exact Or.inl (scopes_release_ne hi)
    · intro i hi
      have hi' : i ∈ h.held := by
        rw [← hk.held, hlater.held]
        exact hi
      exact hstay i (hr.held i hi')
    · rintro i j hi ⟨s, hs, hj⟩
      rw [hkeeps i (holder i hi)] at hs
      exact hstay j (hr.mem_of_refers ⟨s, hs, hj⟩)
  · have hrel : (h'.release h.next).scopes = h'.scopes.modify h.next Scope.cleared := by
      simp [Heap.release, hr'.reclaims, hmax]
    refine hr'.update hlater hnext ?_ ?_
    · intro i
      rw [hrel, Std.TreeMap.getElem?_modify]
      split
      · next heq =>
        obtain rfl := Nat.compare_eq_eq.1 heq
        cases h'.scopes[h.next]? <;> rfl
      · rfl
    · intro i s hs c hc
      by_cases hi : i = h.next
      · rw [hrel, hi, Std.TreeMap.getElem?_modify_self] at hs
        obtain ⟨t, -, rfl⟩ := Option.map_eq_some_iff.1 hs
        rw [Scope.cleared, captures_unbound] at hc
        cases hc
      · rw [scopes_release_ne hi] at hs
        exact hr'.captures i s hs c hc

/-- Whatever a name stands for was made in a scope that is there. -/
theorem mem_of_local? {f : Lambda} (hr : Rooted root h)
    (hl : h.local? name id = some (.closure ⟨f, c⟩)) : c ∈ h.scopes := by
  obtain ⟨slot, hslot, hload⟩ := Option.map_eq_some_iff.1 hl
  obtain ⟨s, hs, hname⟩ := Option.bind_eq_some_iff.1 hslot
  cases slot with
  | own g =>
    obtain ⟨-, rfl⟩ := Closure.mk.inj (Value.closure.inj hload)
    exact mem_table_iff.2 ⟨s, hs⟩
  | value u =>
    obtain rfl : u = .closure ⟨f, c⟩ := hload
    exact hr.captures id s hs c (Scope.mem_captures.2 ⟨name, _, hname, rfl⟩)

end Rooted

end Heap

/-! ## Programs keep the invariant -/

open Heap

/-- Equal heaps with one root, later ones with the scopes of earlier ones. -/
def rootedCoupling (root : ScopeId) : Coupling where
  World := Heap
  Le h h' := ∀ id ∈ h.scopes, id ∈ h'.scopes
  refl _ _ hid := hid
  trans h₁ h₂ id hid := h₂ id (h₁ id hid)
  Holds w h k := w = h ∧ w = k ∧ Rooted root w
  Knows w id := id ∈ w.scopes
  knows_mono hle hid := hle _ hid

theorem stable_rooted (root : ScopeId) : (rootedCoupling root).Stable where
  resolve := by
    rintro h _ _ scope name ⟨rfl, rfl, hr⟩ -
    refine ⟨rfl, fun v hv => Coupling.knowsValue_iff.2 fun f c hvc => ?_⟩
    subst hvc
    obtain ⟨id, -, hl⟩ := List.exists_of_findSome?_eq_some hv
    exact hr.mem_of_local? hl
  store := by
    rintro h _ _ scope v name ⟨rfl, rfl, hr⟩ - hv
    refine ⟨h.store scope name v, fun id hid => mem_scopes_store.2 hid, rfl, rfl, ?_⟩
    exact hr.store (Coupling.knowsValue_iff.1 hv)
  random := by
    rintro h _ _ ⟨rfl, rfl, hr⟩
    have hmem : ∀ id ∈ h.scopes, id ∈ h.random.2.scopes := by
      obtain ⟨draws, heq⟩ := random_eq h
      rw [heq]
      exact fun _ hid => hid
    exact ⟨rfl, h.random.2, hmem, rfl, rfl, hr.random⟩
  newChild := by
    rintro h _ _ parent ⟨rfl, rfl, hr⟩ hp
    refine ⟨rfl, (h.newChild parent).2, fun id hid => Rooted.mem_newChild.2 (Or.inr hid), ?_⟩
    exact ⟨Rooted.mem_newChild.2 (Or.inl rfl), rfl, rfl, hr.newChild hp⟩
  release := by
    rintro h h' _ _ _ _ ⟨rfl, rfl, hr⟩ ⟨rfl, rfl, hr'⟩ hk -
    refine ⟨h'.release h.next, fun id hid => ?_, rfl, rfl, hr.release hr' hk⟩
    rw [Std.TreeMap.mem_iff_isSome_getElem?, hk.scopes id (hr.below id hid)]
    exact Std.TreeMap.mem_iff_isSome_getElem?.1 hid
  program := by
    rintro h _ _ ⟨rfl, rfl, hr⟩
    exact ⟨rfl, { h with programs := h.programs + 1 }, fun _ hid => hid, rfl, rfl, hr.program⟩

/-- **Programs keep the invariant**, whatever they do and however they end. -/
theorem Heap.Rooted.execute_remember {root scope : ScopeId} {h : Heap} (hr : Rooted root h)
    (hs : scope ∈ h.scopes) (limit : Nat) (e : Expr) :
    let h' := (h.execute limit e scope).2.remember scope (h.execute limit e scope).1
    Rooted root h' ∧ ∀ id ∈ h.scopes, id ∈ h'.scopes := by
  have hk : (rootedCoupling root).Holds h h h := ⟨rfl, rfl, hr⟩
  obtain ⟨-, h', hle, rfl, -, hr'⟩ := (stable_rooted root).execute_remember hk hs limit e
  exact ⟨hr', hle⟩

/-! ## Fresh roots -/

/-- A heap with one root that a host holds, with or without the standard libraries. -/
def Heap.start (libraries : Bool) (draws : Draws) : ScopeId × Heap :=
  let (root, h) := if libraries then (Heap.empty draws).newGlobal else (Heap.empty draws).newRoot
  (root, h.hold root)

theorem start_fst (libraries : Bool) (draws : Draws) : (Heap.start libraries draws).1 = 0 := by
  cases libraries <;> rfl

/-- No library exports a closure. -/
theorem isClosure_of_mem_standardBindings {b : String × Value}
    (hb : b ∈ Library.standardBindings) : b.2.isClosure = false := by
  obtain ⟨l, -, hb⟩ := List.mem_flatMap.1 hb
  obtain ⟨e, -, rfl⟩ := List.mem_map.1 hb
  show (l.value e).isClosure = false
  unfold Library.value
  split <;> rfl

/-- Binding what the libraries export keeps what binding any value that is no closure keeps. -/
theorem start_induction {P : Heap → Prop} (libraries : Bool) (draws : Draws)
    (hroot : P ((Heap.empty draws).newRoot.2.hold 0))
    (hstore : ∀ h name v, P h → v.isClosure = false → P (h.store 0 name v)) :
    P (Heap.start libraries draws).2 := by
  cases libraries with
  | false => exact hroot
  | true =>
    have hbound : P ((bindAll 0 Library.standardBindings (Heap.empty draws).newRoot.2).hold 0) :=
      bindAll_induction (P := fun g => P (g.hold 0))
        (fun g hg name v hmem =>
          hstore (g.hold 0) name v hg (isClosure_of_mem_standardBindings hmem)) hroot
    exact hbound

theorem rooted_start (libraries : Bool) (draws : Draws) :
    Rooted 0 (Heap.start libraries draws).2 := by
  refine start_induction libraries draws ?_ ?_
  · have hzero : (Heap.empty draws).newRoot.2.scopes[0]? = some ⟨∅, []⟩ :=
      scopes_add_self (Heap.empty draws) []
    refine ⟨?_, ⟨_, hzero, rfl⟩, ?_, ?_, ?_, rfl⟩
    · intro id hid
      obtain ⟨s, hs⟩ := mem_table_iff.1 hid
      rw [(eq_of_scopes_newRoot hs).1]
      exact Nat.zero_lt_one
    · intro id s hs hne
      exact absurd (eq_of_scopes_newRoot hs).1 hne
    · intro id s hs c hc
      rw [(eq_of_scopes_newRoot hs).2, captures_unbound] at hc
      cases hc
    · intro id hid
      obtain rfl := List.mem_singleton.1 hid
      exact mem_table_iff.2 ⟨_, hzero⟩
  · intro h name v hr hv
    exact hr.store fun f c heq => by simp [heq, Value.isClosure] at hv

end GeoScript
