import GeoScript.Proofs.FrameGraph

/-!
# Scopes in use

**Leading.** A scope refers to its parent and to the scopes that the closures bound in it were made
in; it *leads* wherever a chain of such references ends. A scope is *in use* when one that a host
holds leads to it.

**Theorem (`not_mem_garbage_of_inUse`).** Collecting the frames of a root never takes a scope that
is in use. This holds of every heap, whatever its scopes refer to.

**Theorem (`leads_of_not_mem_garbage`).** A frame that is not taken has a reason to stay: a scope
that a host holds leads to it, or a scope that is no frame of this root.
-/

namespace GeoScript

theorem Scope.mem_captures {s : Scope} {c : ScopeId} :
    c ∈ s.captures ↔ ∃ (name : String) (slot : Slot),
      s.bindings[name]? = some slot ∧ slot.captured? = some c := by
  rw [captures, values_eq_map_toList, List.mem_filterMap]
  constructor
  · rintro ⟨slot, hslot, hc⟩
    obtain ⟨⟨name, _⟩, hmem, rfl⟩ := List.mem_map.1 hslot
    exact ⟨name, _, Std.TreeMap.mem_toList_iff_getElem?_eq_some.1 hmem, hc⟩
  · rintro ⟨name, slot, hslot, hc⟩
    refine ⟨slot, List.mem_map.2 ⟨(name, slot), ?_, rfl⟩, hc⟩
    exact Std.TreeMap.mem_toList_iff_getElem?_eq_some.2 hslot

namespace Heap

variable {h h' : Heap} {root id i j : ScopeId} {s : Scope}

/-- The scope `i` keeps `j` alive. -/
def Refers (h : Heap) (i j : ScopeId) : Prop := ∃ s, h.scopes[i]? = some s ∧ j ∈ s.references

/-- A chain of references goes from one scope to another. -/
def Leads (h : Heap) : ScopeId → ScopeId → Prop := Relation.ReflTransGen h.Refers

/-- A scope that a host holds leads to `id`. -/
def InUse (h : Heap) (id : ScopeId) : Prop := ∃ s ∈ h.held, h.Leads s id

/-- Where all that can be reached refers to the same scopes, the same can be reached. -/
theorem Leads.congr (hl : h.Leads i j)
    (hs : ∀ a, h.Leads i a → h'.scopes[a]? = h.scopes[a]?) : h'.Leads i j := by
  induction hl with
  | refl => exact .refl
  | tail hab hbc ih =>
    obtain ⟨s, hb, hc⟩ := hbc
    exact ih.tail ⟨s, (hs _ hab).trans hb, hc⟩

/-! ## What marking takes -/

/-- The frames taken are those without a path from an anchor. -/
theorem mem_garbage_iff : id ∈ (h.frameGraph root).garbage ↔
    (∃ s, (id, s) ∈ h.frames root) ∧ ¬ ∃ a ∈ (h.frameGraph root).anchors,
      Path (h.frameGraph root).successors (h.frameGraph root).frames a id := by
  rw [FrameGraph.garbage, Std.TreeMap.mem_keys, mem_unreached_iff, mem_frameGraph]

theorem not_mem_garbage_of_held (hid : id ∈ h.held) : id ∉ (h.frameGraph root).garbage := by
  rw [mem_garbage_iff]
  rintro ⟨hframe, hnone⟩
  exact hnone ⟨id, mem_anchors_frameGraph_iff.2 ⟨hframe, Or.inl hid⟩, .refl⟩

/-- Whatever a scope refers to stays if the scope stays. -/
theorem not_mem_garbage_of_refers (hr : h.Refers i j) (hi : i ∉ (h.frameGraph root).garbage) :
    j ∉ (h.frameGraph root).garbage := by
  obtain ⟨s, hs, hj⟩ := hr
  intro hgarbage
  obtain ⟨hframe, hnone⟩ := mem_garbage_iff.1 hgarbage
  by_cases hlast : s.ancestors.getLast? = some root
  · -- The scope is a frame that stays, so a path leads from an anchor to it, and on to `j`.
    have hmem : (i, s) ∈ h.frames root := mem_frames.2 ⟨hs, hlast⟩
    rw [mem_garbage_iff, not_and, not_not] at hi
    obtain ⟨a, ha, hpath⟩ := hi ⟨s, hmem⟩
    exact hnone ⟨a, ha, hpath.tail (edge_frameGraph_iff.2 ⟨s, hmem, hj⟩)⟩
  · have hout : j ∈ h.outside root := mem_outside.2 ⟨i, s, hs, hlast, hj⟩
    exact hnone ⟨j, mem_anchors_frameGraph_iff.2 ⟨hframe, Or.inr hout⟩, .refl⟩

theorem not_mem_garbage_of_leads (hl : h.Leads i j) (hi : i ∉ (h.frameGraph root).garbage) :
    j ∉ (h.frameGraph root).garbage := by
  induction hl with
  | refl => exact hi
  | tail _ hbc ih => exact not_mem_garbage_of_refers hbc ih

/-- **What is in use stays.** -/
theorem not_mem_garbage_of_inUse (hu : h.InUse id) : id ∉ (h.frameGraph root).garbage := by
  obtain ⟨s, hs, hl⟩ := hu
  exact not_mem_garbage_of_leads hl (not_mem_garbage_of_held hs)

theorem leads_of_path {a : ScopeId}
    (hp : Path (h.frameGraph root).successors (h.frameGraph root).frames a id) : h.Leads a id := by
  refine Relation.ReflTransGen.mono (fun i j he => ?_) _ _ hp
  obtain ⟨s, hs, hj⟩ := edge_frameGraph_iff.1 he
  exact ⟨s, (mem_frames.1 hs).1, hj⟩

/-- **What stays is led to** from a host, or from a scope that is no frame of the root. -/
theorem leads_of_not_mem_garbage (hmem : (id, s) ∈ h.frames root)
    (hg : id ∉ (h.frameGraph root).garbage) :
    h.InUse id ∨ ∃ (i : ScopeId) (t : Scope), h.scopes[i]? = some t ∧
      t.ancestors.getLast? ≠ some root ∧ h.Leads i id := by
  rw [mem_garbage_iff, not_and, not_not] at hg
  obtain ⟨a, ha, hpath⟩ := hg ⟨s, hmem⟩
  obtain ⟨-, hheld | hout⟩ := mem_anchors_frameGraph_iff.1 ha
  · exact Or.inl ⟨a, hheld, leads_of_path hpath⟩
  · obtain ⟨i, t, ht, hlast, hat⟩ := mem_outside.1 hout
    exact Or.inr ⟨i, t, ht, hlast, .head ⟨t, ht, hat⟩ (leads_of_path hpath)⟩

/-! ## Collecting -/

/-- Collecting changes nothing but the scopes. -/
theorem collect_eq (h : Heap) (root : ScopeId) :
    h.collect root = { h with scopes := (h.collect root).scopes } := by
  unfold collect
  split <;> rfl

theorem collect_of_keeping (hr : h.reclaims = false) (root : ScopeId) : h.collect root = h := by
  rw [collect, hr]
  rfl

theorem scopes_collect (hr : h.reclaims = true) (root id : ScopeId) :
    (h.collect root).scopes[id]? =
      if id ∈ (h.frameGraph root).garbage then none else h.scopes[id]? := by
  rw [collect, if_pos hr]
  exact getElem?_foldl_erase _ _ _

/-- Collecting takes a scope whole or leaves it as it is, and takes none that is in use. -/
theorem scopes_collect_cases (h : Heap) (root id : ScopeId) :
    (h.collect root).scopes[id]? = h.scopes[id]? ∨
      (h.collect root).scopes[id]? = none ∧ ¬ h.InUse id := by
  by_cases hr : h.reclaims = true
  · rw [scopes_collect hr]
    split
    · next hg => exact Or.inr ⟨rfl, fun hu => not_mem_garbage_of_inUse hu hg⟩
    · exact Or.inl rfl
  · rw [collect_of_keeping (by simpa using hr)]
    exact Or.inl rfl

theorem scopes_collect_of_inUse (hu : h.InUse id) (root : ScopeId) :
    (h.collect root).scopes[id]? = h.scopes[id]? := by
  rcases scopes_collect_cases h root id with heq | ⟨-, hn⟩
  · exact heq
  · exact absurd hu hn

end Heap

end GeoScript
