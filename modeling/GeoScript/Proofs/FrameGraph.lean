import GeoScript.Heap.Collect
import GeoScript.Proofs.TrialDeletion

/-!
# The graph of the frames of a root

**The graph is the heap.** Building the graph numbers the closures bound in frames one after the
other. Whatever the numbers are, a frame leads to its parent and to the scopes that the closures
bound in it were made in (`successors_frameGraph`), and the references from inside the graph are
those that frames of the root make (`getD_internal_frameGraph`).

**Anchors.** So the graph is consistent with what is not part of it (`consistent_frameGraph`): a frame
has something left over exactly when a reference to it comes from elsewhere, from a host or from a
scope that is no frame of this root (`mem_anchors_frameGraph_iff`).
-/

namespace GeoScript

/-! ## Tables as lists -/

section Tables

variable {α : Type}

theorem toList_insert_perm {t : Std.TreeMap Nat α} {k : Nat} (hk : k ∉ t) (v : α) :
    (t.insert k v).toList.Perm ((k, v) :: t.toList) := by
  have hfilter : t.toList.filter (fun p => decide ¬ (k == p.1) = true) = t.toList := by
    rw [List.filter_eq_self]
    rintro ⟨a, b⟩ hab
    have ha : a ∈ t := mem_table_iff.2 ⟨b, Std.TreeMap.mem_toList_iff_getElem?_eq_some.1 hab⟩
    have hne : k ≠ a := fun heq => hk (heq ▸ ha)
    simpa using hne
  have hperm := Std.TreeMap.toList_insert_perm (t := t) (k := k) (v := v)
  rwa [hfilter] at hperm

theorem values_insert_perm {t : Std.TreeMap Nat α} {k : Nat} (hk : k ∉ t) (v : α) :
    (t.insert k v).values.Perm (v :: t.values) := by
  rw [values_eq_map_toList, values_eq_map_toList]
  exact (toList_insert_perm hk v).map Prod.snd

/-- Counting a list without repetitions gives one for each of its members. -/
theorem toList_tally_perm {ids : List Nat} (hd : ids.Nodup) :
    (tally ids).toList.Perm (ids.map (·, 1)) := by
  refine (List.perm_ext_iff_of_nodup (nodup_toList _)
    (hd.map fun a b hab => (Prod.mk.inj hab).1)).2 ?_
  rintro ⟨i, n⟩
  rw [Std.TreeMap.mem_toList_iff_getElem?_eq_some, List.mem_map]
  have hget : ∀ m, (tally ids)[i]? = some m → m = ids.count i := by
    intro m hm
    rw [← getD_tally, Std.TreeMap.getD_eq_getD_getElem?, hm]
    rfl
  constructor
  · intro hn
    have hi : i ∈ ids := mem_tally.1 (mem_table_iff.2 ⟨n, hn⟩)
    exact ⟨i, hi, by rw [hget n hn, List.count_eq_one_of_mem hd hi]⟩
  · rintro ⟨j, hj, hji⟩
    obtain ⟨rfl, rfl⟩ := Prod.mk.inj hji
    obtain ⟨m, hm⟩ := mem_table_iff.1 (mem_tally.2 hj)
    rw [hm, hget m hm, List.count_eq_one_of_mem hd hj]

theorem filterMap_range_getElem? (l : List α) :
    (List.range l.length).filterMap (fun i => l[i]?) = l := by
  induction l with
  | nil => rfl
  | cons a l ih =>
    rw [List.length_cons, List.range_succ_eq_map, List.filterMap_cons, List.filterMap_map]
    simpa [Function.comp_def] using ih

/-- Numbers of places in a list stay numbers of the same entries when the list grows. -/
theorem map_getElem?_append {slots : List Nat} {l cs : List α}
    (h : slots.map (l[·]?) = cs.map some) (l' : List α) :
    slots.map ((l ++ l')[·]?) = cs.map some := by
  rw [← h]
  refine List.map_congr_left fun i hi => ?_
  have hmem : l[i]? ∈ cs.map some := h ▸ List.mem_map_of_mem hi
  obtain ⟨c, -, hc⟩ := List.mem_map.1 hmem
  obtain ⟨hlt, -⟩ := List.getElem?_eq_some_iff.1 hc.symm
  exact List.getElem?_append_left hlt

theorem map_getElem?_range' (l cs : List α) :
    (List.range' l.length cs.length).map ((l ++ cs)[·]?) = cs.map some := by
  refine List.ext_getElem? fun i => ?_
  rw [List.getElem?_map, List.getElem?_map]
  by_cases hi : i < cs.length
  · rw [List.getElem?_range' hi, Option.map_some, List.getElem?_append_right (by omega)]
    rw [List.getElem?_eq_getElem hi]
    simp [hi]
  · rw [List.getElem?_eq_none (by simpa using hi), List.getElem?_eq_none (by simpa using hi)]
    rfl

end Tables

/-! ## Building the graph -/

namespace Heap

/-- Where the closures bound in some frames were made, frame by frame. -/
def captured (fs : List (ScopeId × Scope)) : List ScopeId := fs.flatMap fun f => f.2.captures

/-- The graph has the frames `fs`, and closures numbered as they come in `captured fs`. -/
structure Built (strong : Std.TreeMap ScopeId Nat) (fs : List (ScopeId × Scope)) (g : FrameGraph)
    (next : Nat) : Prop where
  next_eq : next = (captured fs).length
  closures : ∀ i : Nat, g.closures[i]? = (captured fs)[i]?.map (FrameGraph.Bound.mk · 1)
  mem : ∀ id s, (id, s) ∈ fs → id ∈ g.frames
  frames : ∀ id f, g.frames[id]? = some f → ∃ s slots, (id, s) ∈ fs ∧
    f = ⟨s.parent?, slots, strong.getD id 0⟩ ∧ slots.map ((captured fs)[·]?) = s.captures.map some
  parents : (g.frames.values.filterMap FrameGraph.Frame.parent).Perm
    (fs.filterMap fun f => f.2.parent?)
  slots : (g.frames.values.flatMap FrameGraph.Frame.slots).Perm (List.range next)

variable {strong : Std.TreeMap ScopeId Nat} {fs : List (ScopeId × Scope)} {g : FrameGraph}
  {next : Nat} {h : Heap} {root id j : ScopeId} {s : Scope}

theorem captured_append (fs gs : List (ScopeId × Scope)) :
    captured (fs ++ gs) = captured fs ++ captured gs := List.flatMap_append

theorem captured_singleton (f : ScopeId × Scope) : captured [f] = f.2.captures := by
  simp [captured]

theorem built_nil (strong : Std.TreeMap ScopeId Nat) : Built strong [] ⟨∅, ∅⟩ 0 where
  next_eq := rfl
  closures i := by simp [captured]
  mem id s hmem := by cases hmem
  frames id f hf := by simp at hf
  parents := List.Perm.nil
  slots := List.Perm.nil

/-- Closures are entered under the numbers that come next. -/
theorem getElem?_insertClosures {table : Std.TreeMap Nat FrameGraph.Bound} {l : List ScopeId}
    (ht : ∀ i : Nat, table[i]? = l[i]?.map (FrameGraph.Bound.mk · 1)) (cs : List ScopeId) (i : Nat) :
    (((List.range' l.length cs.length).zip cs).foldl
      (fun table (slot, c) => table.insert slot ⟨c, 1⟩) table)[i]? =
        (l ++ cs)[i]?.map (FrameGraph.Bound.mk · 1) := by
  induction cs generalizing table l with
  | nil => simpa using ht i
  | cons c cs ih =>
    have hstep : ∀ i : Nat, (table.insert l.length ⟨c, 1⟩)[i]? =
        (l ++ [c])[i]?.map (FrameGraph.Bound.mk · 1) := by
      intro i
      rw [Std.TreeMap.getElem?_insert, ht]
      rcases Nat.lt_trichotomy i l.length with hi | hi | hi
      · rw [if_neg (by simp; omega), List.getElem?_append_left hi]
      · subst hi
        simp
      · rw [if_neg (by simp; omega), List.getElem?_eq_none (by omega),
          List.getElem?_eq_none (by simp; omega)]
    have hrest := ih hstep
    rw [List.length_append, List.length_singleton, List.append_assoc] at hrest
    simpa [List.range'_succ] using hrest

theorem built_addFrame (hb : Built strong fs g next) (hid : ∀ s', (id, s') ∉ fs) :
    Built strong (fs ++ [(id, s)]) (addFrame strong (g, next) (id, s)).1
      (addFrame strong (g, next) (id, s)).2 := by
  have hnext := hb.next_eq
  have hnew : id ∉ g.frames := by
    intro hmem
    obtain ⟨f, hf⟩ := mem_table_iff.1 hmem
    obtain ⟨s', -, hs', -⟩ := hb.frames id f hf
    exact hid s' hs'
  have hcap : captured (fs ++ [(id, s)]) = captured fs ++ s.captures := by
    rw [captured_append, captured_singleton]
  have hvalues := values_insert_perm hnew
    (⟨s.parent?, List.range' next s.captures.length, strong.getD id 0⟩ : FrameGraph.Frame)
  constructor
  · show next + s.captures.length = _
    rw [hcap, List.length_append, hnext]
  · intro i
    rw [hcap]
    subst hnext
    exact getElem?_insertClosures hb.closures s.captures i
  · intro a t hmem
    show a ∈ g.frames.insert id _
    rw [Std.TreeMap.mem_insert]
    rcases List.mem_append.1 hmem with hmem | hmem
    · exact Or.inr (hb.mem a t hmem)
    · obtain ⟨rfl, rfl⟩ := Prod.mk.inj (List.mem_singleton.1 hmem)
      exact Or.inl (by simp)
  · intro a f hf
    replace hf : (g.frames.insert id _)[a]? = some f := hf
    rw [Std.TreeMap.getElem?_insert] at hf
    rw [hcap]
    by_cases ha : id = a
    · subst ha
      rw [if_pos (by simp)] at hf
      subst hnext
      exact ⟨s, _, by simp, (Option.some.inj hf).symm, map_getElem?_range' _ _⟩
    · rw [if_neg (by simpa using ha)] at hf
      obtain ⟨t, slots, ht, heq, hslots⟩ := hb.frames a f hf
      exact ⟨t, slots, List.mem_append_left _ ht, heq, map_getElem?_append hslots _⟩
  · show ((g.frames.insert id _).values.filterMap FrameGraph.Frame.parent).Perm _
    refine (hvalues.filterMap _).trans ?_
    rw [List.filterMap_append]
    refine List.Perm.trans ?_ List.perm_append_comm
    cases hp : s.parent? with
    | none => simpa [hp] using hb.parents
    | some p => simpa [hp] using hb.parents
  · show ((g.frames.insert id _).values.flatMap FrameGraph.Frame.slots).Perm
      (List.range (next + s.captures.length))
    refine (hvalues.flatMap_right _).trans ?_
    rw [List.flatMap_cons, List.range_add]
    refine (List.perm_append_comm).trans ?_
    rw [List.range'_eq_map_range]
    exact hb.slots.append_right _

theorem built_foldl (rest : List (ScopeId × Scope)) (hb : Built strong fs g next)
    (hd : ((fs ++ rest).map Prod.fst).Nodup) :
    Built strong (fs ++ rest) (rest.foldl (addFrame strong) (g, next)).1
      (rest.foldl (addFrame strong) (g, next)).2 := by
  induction rest generalizing fs g next with
  | nil => simpa using hb
  | cons f rest ih =>
    obtain ⟨id, s⟩ := f
    have hassoc : fs ++ (id, s) :: rest = (fs ++ [(id, s)]) ++ rest := by simp
    rw [hassoc] at hd ⊢
    refine ih (built_addFrame hb fun s' hs' => ?_) hd
    rw [List.map_append, List.map_append] at hd
    have hdis := List.disjoint_of_nodup_append (List.Nodup.of_append_left hd)
    exact hdis (List.mem_map_of_mem (f := Prod.fst) hs') (by simp)

/-! ## The graph of a heap -/

theorem mem_frames : (id, s) ∈ h.frames root ↔
    h.scopes[id]? = some s ∧ s.ancestors.getLast? = some root := by
  rw [frames, List.mem_filter, Std.TreeMap.mem_toList_iff_getElem?_eq_some]
  simp

theorem nodup_frames (h : Heap) (root : ScopeId) : ((h.frames root).map Prod.fst).Nodup :=
  nodup_keys_filter h.scopes _

theorem built_frameGraph (h : Heap) (root : ScopeId) :
    ∃ next, Built h.references (h.frames root) (h.frameGraph root) next := by
  have hb := built_foldl (h.frames root) (built_nil h.references)
    (by simpa using nodup_frames h root)
  exact ⟨_, hb⟩

theorem mem_frameGraph : id ∈ (h.frameGraph root).frames ↔ ∃ s, (id, s) ∈ h.frames root := by
  obtain ⟨next, hb⟩ := built_frameGraph h root
  constructor
  · intro hmem
    obtain ⟨f, hf⟩ := mem_table_iff.1 hmem
    obtain ⟨s, -, hs, -⟩ := hb.frames id f hf
    exact ⟨s, hs⟩
  · rintro ⟨s, hs⟩
    exact hb.mem id s hs

/-- A frame of the graph leads where the scope leads. -/
theorem successors_frameGraph {f : FrameGraph.Frame}
    (hf : (h.frameGraph root).frames[id]? = some f) :
    ∃ s, (id, s) ∈ h.frames root ∧ (h.frameGraph root).successors f = s.references ∧
      f.strong = h.references.getD id 0 := by
  obtain ⟨next, hb⟩ := built_frameGraph h root
  obtain ⟨s, slots, hs, rfl, hslots⟩ := hb.frames id f hf
  refine ⟨s, hs, ?_, rfl⟩
  have hcaptured : (slots.filterMap fun i =>
      (h.frameGraph root).closures[i]?.map FrameGraph.Bound.captured) = s.captures := by
    have hmap : (slots.map ((captured (h.frames root))[·]?)).filterMap (fun c => c) =
        s.captures := by
      rw [hslots]
      simp [List.filterMap_map]
    rw [← hmap, List.filterMap_map]
    refine List.filterMap_congr fun i _ => ?_
    rw [hb.closures i, Option.map_map]
    simp [Function.comp_def]
  rw [FrameGraph.successors, hcaptured]
  rfl

theorem edge_frameGraph_iff :
    Edge (h.frameGraph root).successors (h.frameGraph root).frames id j ↔
      ∃ s, (id, s) ∈ h.frames root ∧ j ∈ s.references := by
  constructor
  · rintro ⟨f, hf, hj⟩
    obtain ⟨s, hs, hsucc, -⟩ := successors_frameGraph hf
    exact ⟨s, hs, hsucc ▸ hj⟩
  · rintro ⟨s, hs, hj⟩
    have hmem := mem_frameGraph.2 ⟨s, hs⟩
    obtain ⟨f, hf⟩ := mem_table_iff.1 hmem
    obtain ⟨s', hs', hsucc, -⟩ := successors_frameGraph hf
    have heq : s' = s := Option.some.inj ((mem_frames.1 hs').1.symm.trans (mem_frames.1 hs).1)
    exact ⟨f, hf, by rw [hsucc, heq]; exact hj⟩

/-! ## References from inside -/

/-- The closures of the graph, each bound once. -/
theorem boundClosures_perm (hb : Built strong fs g next) :
    g.boundClosures.Perm ((captured fs).map fun c => (⟨c, 1⟩, 1)) := by
  have hslots : g.slotCounts.toList.Perm ((List.range next).map (·, 1)) := by
    have hnodup : (g.frames.values.flatMap FrameGraph.Frame.slots).Nodup :=
      hb.slots.nodup_iff.2 List.nodup_range
    exact (toList_tally_perm hnodup).trans (hb.slots.map _)
  refine (hslots.filterMap _).trans (List.Perm.of_eq ?_)
  rw [List.filterMap_map]
  have hget : ∀ i : Nat, (g.closures[i]?.map fun c => (c, 1)) =
      ((captured fs)[i]?.map fun c => (FrameGraph.Bound.mk c 1, 1)) := by
    intro i
    rw [hb.closures i, Option.map_map]
    rfl
  have hall := filterMap_range_getElem? ((captured fs).map fun c => (FrameGraph.Bound.mk c 1, 1))
  rw [List.length_map, ← hb.next_eq] at hall
  rw [← hall]
  refine List.filterMap_congr fun i _ => ?_
  rw [List.getElem?_map, ← hget i]
  rfl

theorem count_captured (fs : List (ScopeId × Scope)) (id : ScopeId) :
    (fs.filterMap fun f => f.2.parent?).count id + (captured fs).count id =
      (fs.flatMap fun f => f.2.references).count id := by
  induction fs with
  | nil => rfl
  | cons f fs ih =>
    rw [List.flatMap_cons, List.count_append, ← ih]
    have hcons : captured (f :: fs) = f.2.captures ++ captured fs := List.flatMap_cons
    rw [hcons, List.count_append, Scope.references, List.count_append]
    cases hp : f.2.parent? with
    | none =>
      simp [hp]
      omega
    | some p =>
      simp [hp, List.count_cons]
      omega

theorem getD_internal_frameGraph (h : Heap) (root id : ScopeId) :
    (h.frameGraph root).internal.getD id 0 =
      ((h.frames root).flatMap fun f => f.2.references).count id := by
  obtain ⟨next, hb⟩ := built_frameGraph h root
  have hclosures : ((h.frameGraph root).boundClosures.map (·.1.captured)).Perm
      (captured (h.frames root)) := by
    simpa [Function.comp_def] using (boundClosures_perm hb).map (·.1.captured)
  rw [FrameGraph.internal, getD_tally, List.count_append, hb.parents.count_eq,
    hclosures.count_eq, count_captured]

/-- The references that scopes make which are no frames of a root. -/
def outside (h : Heap) (root : ScopeId) : List ScopeId :=
  (h.scopes.toList.filter fun f => !(f.2.ancestors.getLast? == some root)).flatMap
    fun f => f.2.references

theorem mem_outside : id ∈ h.outside root ↔ ∃ (i : ScopeId) (t : Scope),
    h.scopes[i]? = some t ∧ t.ancestors.getLast? ≠ some root ∧ id ∈ t.references := by
  simp only [outside, List.mem_flatMap, List.mem_filter, Prod.exists, and_assoc,
    Std.TreeMap.mem_toList_iff_getElem?_eq_some]
  simp

/-- References to a scope come from the frames of a root, from other scopes, or from a host. -/
theorem getD_references (h : Heap) (root id : ScopeId) :
    h.references.getD id 0 = ((h.frames root).flatMap fun f => f.2.references).count id +
      (h.outside root).count id + h.held.count id := by
  rw [references, getD_tally, List.count_append, values_eq_map_toList, List.flatMap_map]
  have hperm := (List.filter_append_perm
    (fun f : ScopeId × Scope => f.2.ancestors.getLast? == some root) h.scopes.toList)
  rw [← (hperm.flatMap_right fun f => f.2.references).count_eq, List.flatMap_append,
    List.count_append]
  rfl

/-- Whatever refers to the frames of a root and is none of them. Closures in frames are known to
their slots only. -/
def holders (h : Heap) (root : ScopeId) : FrameGraph.Holders where
  ofFrame id := (h.outside root).count id + h.held.count id
  ofClosure _ := 0

/-- **The graph is consistent**, whatever the scopes of the heap refer to. -/
theorem consistent_frameGraph (h : Heap) (root : ScopeId) :
    (h.frameGraph root).Consistent (h.holders root) where
  closures k c hk := by
    obtain ⟨next, hb⟩ := built_frameGraph h root
    rw [hb.closures k] at hk
    obtain ⟨id, hid, rfl⟩ := Option.map_eq_some_iff.1 hk
    obtain ⟨hlt, -⟩ := List.getElem?_eq_some_iff.1 hid
    have hcount := hb.slots.count_eq k
    rw [hb.next_eq, List.count_eq_one_of_mem List.nodup_range (List.mem_range.2 hlt)] at hcount
    rw [← FrameGraph.getD_slotCounts, FrameGraph.slotCounts, getD_tally, hcount]
    rfl
  frames i f hf := by
    obtain ⟨s, -, -, hstrong⟩ := successors_frameGraph hf
    rw [hstrong, getD_references h root i, ← getD_internal_frameGraph,
      FrameGraph.getD_internal, Nat.add_assoc]
    rfl

/-- **The anchors** are the frames that a host holds or that a scope elsewhere refers to. -/
theorem mem_anchors_frameGraph_iff : id ∈ (h.frameGraph root).anchors ↔
    (∃ s, (id, s) ∈ h.frames root) ∧ (id ∈ h.held ∨ id ∈ h.outside root) := by
  have hheld : 0 < (h.holders root).ofFrame id ↔ id ∈ h.held ∨ id ∈ h.outside root := by
    rw [← List.count_pos_iff (l := h.held), ← List.count_pos_iff (l := h.outside root)]
    simp only [holders]
    omega
  rw [FrameGraph.mem_anchors_iff (consistent_frameGraph h root), mem_frameGraph, hheld]
  simp [holders]

end Heap

end GeoScript
