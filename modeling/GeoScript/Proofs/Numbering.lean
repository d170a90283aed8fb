import GeoScript.Proofs.Recording
import GeoScript.Proofs.Rooted

/-!
# Numbers that have been handed out

**The invariant (`Numbered`).** Whatever number of a scope occurs in a heap, as a key, around a scope
or in a closure, has been handed out. There may be any number of roots, and numbers may occur that
stand for no scope any more. So the scope made next is new to everything in the heap.

**Theorem (`Numbered.evaluate`).** Every evaluation keeps the invariant, and so does every call
(`Numbered.callAt`).
-/

namespace GeoScript

/-- A closure was made in a scope with a number below the bound; anything else may be. -/
def Value.Below (bound : ScopeId) : Value → Prop
  | .closure c => c.scope < bound
  | _ => True

theorem Value.Below.mono {m n : ScopeId} {v : Value} (hv : v.Below m) (hmn : m ≤ n) :
    v.Below n := by
  cases v with
  | closure c => exact Nat.lt_of_lt_of_le hv hmn
  | _ => trivial

theorem Value.below_of_plain {v : Value} (hv : v.isClosure = false) (n : ScopeId) : v.Below n := by
  cases v with
  | closure => cases hv
  | _ => trivial

namespace Heap

/-- Every number that occurs has been handed out. -/
structure Numbered (h : Heap) : Prop where
  below : ∀ id ∈ h.scopes, id < h.next
  ancestors : ∀ (id : ScopeId) (s : Scope), h.scopes[id]? = some s → ∀ a ∈ s.ancestors, a < h.next
  values : h.Binds (Value.Below h.next)

variable {h h' : Heap} {id scope : ScopeId} {name : String} {v : Value}

theorem Binds.imp {P Q : Value → Prop} (hb : h.Binds P) (hPQ : ∀ v, P v → Q v) : h.Binds Q :=
  fun id name v hl => hPQ v (hb id name v hl)

namespace Numbered

theorem none_of_le (hn : h.Numbered) (hid : h.next ≤ id) : h.scopes[id]? = none := by
  apply Std.TreeMap.getElem?_eq_none
  intro hmem
  exact Nat.not_lt.2 hid (hn.below id hmem)

theorem lt_of_mem_chain (hn : h.Numbered) (hid : id < h.next) : ∀ a ∈ h.chain id, a < h.next := by
  intro a ha
  rcases List.mem_cons.1 ha with rfl | ha
  · exact hid
  · cases hs : h.scopes[id]? with
    | none =>
      rw [hs] at ha
      cases ha
    | some s =>
      rw [hs] at ha
      exact hn.ancestors id s hs a ha

/-- Scopes that were there, with the scopes around them, or nothing in their place. -/
theorem of_scopes (hn : h.Numbered) (hnext : h.next ≤ h'.next)
    (hs : ∀ (id : ScopeId) (s : Scope), h'.scopes[id]? = some s →
      ∃ t, h.scopes[id]? = some t ∧ t.ancestors = s.ancestors)
    (hv : h'.Binds (Value.Below h'.next)) : h'.Numbered where
  below id hid := by
    obtain ⟨s, hs'⟩ := mem_table_iff.1 hid
    obtain ⟨t, ht, -⟩ := hs id s hs'
    exact Nat.lt_of_lt_of_le (hn.below id (mem_table_iff.2 ⟨t, ht⟩)) hnext
  ancestors id s hs' a ha := by
    obtain ⟨t, ht, heq⟩ := hs id s hs'
    exact Nat.lt_of_lt_of_le (hn.ancestors id t ht a (heq ▸ ha)) hnext
  values := hv

theorem store (hn : h.Numbered) (hv : v.Below h.next) : (h.store id name v).Numbered := by
  refine hn.of_scopes (Nat.le_refl _) (fun i s hs => ?_) (Binds.store hn.values hv)
  have hanc : (h.store id name v).scopes[i]?.map Scope.ancestors = _ := ancestors_store
  rw [hs, Option.map_some] at hanc
  exact Option.map_eq_some_iff.1 hanc.symm

theorem random (hn : h.Numbered) : h.random.2.Numbered := by
  obtain ⟨draws, hr⟩ := random_eq h
  rw [hr]
  exact ⟨hn.below, hn.ancestors, hn.values⟩

/-- A new scope may be put inside scopes that have numbers. -/
theorem add (hn : h.Numbered) {outer : List ScopeId} (houter : ∀ a ∈ outer, a < h.next) :
    (h.add outer).2.Numbered := by
  have hget : ∀ (i : ScopeId) (s : Scope), (h.add outer).2.scopes[i]? = some s →
      i = h.next ∧ s = ⟨∅, outer⟩ ∨ h.scopes[i]? = some s := by
    intro i s hs
    by_cases hi : i = h.next
    · rw [hi, scopes_add_self] at hs
      exact Or.inl ⟨hi, (Option.some.inj hs).symm⟩
    · rw [scopes_add_ne hi] at hs
      exact Or.inr hs
  refine ⟨fun i hi => ?_, fun i s hs a ha => ?_, ?_⟩
  · obtain ⟨s, hs⟩ := mem_table_iff.1 hi
    rcases hget i s hs with ⟨rfl, -⟩ | hold
    · exact Nat.lt_succ_self _
    · exact Nat.lt_succ_of_lt (hn.below i (mem_table_iff.2 ⟨s, hold⟩))
  · rcases hget i s hs with ⟨-, rfl⟩ | hold
    · exact Nat.lt_succ_of_lt (houter a ha)
    · exact Nat.lt_succ_of_lt (hn.ancestors i s hold a ha)
  · have hvalues : (h.add outer).2.Binds (Value.Below h.next) := by
      refine Binds.of_scopes hn.values fun i s hs => ?_
      rcases hget i s hs with ⟨-, rfl⟩ | hold
      · exact Or.inr rfl
      · exact Or.inl hold
    exact hvalues.imp fun _ hv => hv.mono (Nat.le_succ _)

theorem newChild (hn : h.Numbered) (hid : id < h.next) : (h.newChild id).2.Numbered :=
  hn.add (hn.lt_of_mem_chain hid)

theorem release (hn : h.Numbered) (frame : ScopeId) : (h.release frame).Numbered := by
  have hrel : h.release frame = { h with scopes := (h.release frame).scopes } :=
    leave_eq frame (.ok .unit) h
  have hnext : (h.release frame).next = h.next := by rw [hrel]
  refine hn.of_scopes (Nat.le_of_eq hnext.symm) (fun i s hs => ?_) ?_
  · by_cases hi : i = frame
    · rw [hi, scopes_release_self] at hs
      rw [hi]
      split_ifs at hs
      · obtain ⟨t, ht, rfl⟩ := Option.map_eq_some_iff.1 hs
        exact ⟨t, ht, rfl⟩
      · exact ⟨s, hs, rfl⟩
    · rw [scopes_release_ne hi] at hs
      exact ⟨s, hs, rfl⟩
  · rw [hnext]
    exact Binds.release hn.values frame

theorem collect (hn : h.Numbered) (root : ScopeId) : (h.collect root).Numbered := by
  have hnext : (h.collect root).next = h.next := by rw [collect_eq]
  refine hn.of_scopes (Nat.le_of_eq hnext.symm) (fun i s hs => ?_) ?_
  · rcases scopes_collect_cases h root i with heq | ⟨hnone, -⟩
    · exact ⟨s, heq ▸ hs, rfl⟩
    · rw [hnone] at hs
      cases hs
  · rw [hnext]
    exact Binds.collect hn.values root

end Numbered

end Heap

open Heap

/-! ## Programs and calls -/

/-- One heap with its numbers, known by the next of them. -/
def numberedCoupling : Coupling where
  World := ScopeId
  Le := (· ≤ ·)
  refl := Nat.le_refl
  trans := Nat.le_trans
  Holds w h k := h = k ∧ h.next = w ∧ h.Numbered
  Knows w id := id < w
  knows_mono hle hid := Nat.lt_of_lt_of_le hid hle

theorem knowsValue_numbered {n : ScopeId} {v : Value} :
    numberedCoupling.KnowsValue n v ↔ v.Below n := by
  cases v <;> rfl

theorem stable_numbered : numberedCoupling.Stable where
  resolve := by
    rintro _ h _ scope name ⟨rfl, rfl, hn⟩ -
    exact ⟨rfl, fun v hv => knowsValue_numbered.2 (Binds.resolve hn.values hv)⟩
  store := by
    rintro _ h _ scope v name ⟨rfl, rfl, hn⟩ - hv
    exact ⟨h.next, Nat.le_refl _, rfl, rfl, hn.store (knowsValue_numbered.1 hv)⟩
  random := by
    rintro _ h _ ⟨rfl, rfl, hn⟩
    have hnext : h.random.2.next = h.next := by
      obtain ⟨draws, hr⟩ := random_eq h
      rw [hr]
    exact ⟨rfl, h.next, Nat.le_refl _, rfl, hnext, hn.random⟩
  newChild := by
    rintro _ h _ parent ⟨rfl, rfl, hn⟩ hp
    exact ⟨rfl, h.next + 1, Nat.le_succ _, Nat.lt_succ_self _, rfl, rfl, hn.newChild hp⟩
  release := by
    rintro _ _ h h' _ _ ⟨rfl, rfl, -⟩ ⟨rfl, rfl, hn⟩ hk -
    exact ⟨(h'.release h.next).next, hk.next_le, rfl, rfl, hn.release h.next⟩
  program := by
    rintro _ h _ ⟨rfl, rfl, hn⟩
    exact ⟨rfl, h.next, Nat.le_refl _, rfl, rfl, hn.below, hn.ancestors, hn.values⟩

namespace Heap.Numbered

variable {h : Heap} {scope : ScopeId}

/-- **Calls keep the invariant.** -/
theorem callAt (hn : h.Numbered) {f : Closure} (hf : f.scope < h.next) {args : List Value}
    (ha : ∀ a ∈ args, a.Below h.next) (limit allowed line : Nat) :
    ((callAt limit allowed f args line).runOn h).2.Numbered := by
  obtain ⟨w, -, ⟨-, -, hn'⟩, -⟩ := stable_numbered.lockstep_callAt limit allowed h.next f args line
    hf (fun a hmem => knowsValue_numbered.2 (ha a hmem)) h.next (Nat.le_refl _) h h ⟨rfl, rfl, hn⟩
  exact hn'

/-- **Evaluations keep the invariant**, whatever the text is and however they end. -/
theorem evaluate (hn : h.Numbered) (hs : scope < h.next) (source : String) :
    (evaluate source scope h).2.Numbered := by
  cases hp : parse source with
  | error e =>
    rw [GeoScript.evaluate, hp]
    exact hn
  | ok e =>
    have hholds : numberedCoupling.Holds h.next h h := ⟨rfl, rfl, hn⟩
    obtain ⟨-, w, -, -, -, hn'⟩ := stable_numbered.execute_remember hholds hs callLimit e
    rw [GeoScript.evaluate, hp]
    exact hn'.collect _

end Heap.Numbered

theorem numbered_empty (draws : Draws) : (Heap.empty draws).Numbered := by
  have hget : ∀ id : ScopeId, (Heap.empty draws).scopes[id]? = none := fun id => by
    simp [Heap.empty]
  refine ⟨fun id hid => ?_, fun id s hs => ?_, fun id name v hl => ?_⟩
  · obtain ⟨s, hs⟩ := mem_table_iff.1 hid
    rw [hget] at hs
    cases hs
  · rw [hget] at hs
    cases hs
  · obtain ⟨s, -, hs, -⟩ := exists_of_local? hl
    rw [hget] at hs
    cases hs

theorem numbered_start (libraries : Bool) (draws : Draws) :
    (Heap.start libraries draws).2.Numbered := by
  refine start_induction libraries draws ?_ ?_
  · have hroot : (Heap.empty draws).newRoot.2.Numbered := (numbered_empty draws).add nofun
    exact ⟨hroot.below, hroot.ancestors, hroot.values⟩
  · intro h name v hn hv
    exact hn.store (Value.below_of_plain hv _)

end GeoScript
