import GeoScript.Heap.FrameGraph
import GeoScript.Proofs.Marking
import Mathlib.Data.List.Nodup
import Mathlib.Data.List.Perm.Basic
import Mathlib.Data.Set.Card
import Mathlib.Logic.Function.Iterate

/-!
# Trial deletion takes what nothing outside leads to

**Holders.** Frames and closures are held by each other, and by whatever is not part of the graph: a
host, a scope of another root, a value under way. Which of their references come from outside is not
known to the collector; it only sees sums. A graph is *consistent* with its holders when all its
counts are such sums (`FrameGraph.Consistent`).

**Theorem (`collect_exact`).** On a consistent graph the frames taken are those that are not reached
from anything with a holder outside. Their number is told, all other frames keep their bindings,
and marking is over after a number of rounds that the references of the graph bound.

The point is that subtracting gives back the summand: what remains of a count is the number of
holders outside (`getD_internal`, `mem_boundClosures`). A closure in several slots is referred to
from each of them, but refers to the frame it was made in only once.
-/

namespace GeoScript

/-! ## Tables as lists -/

section Tables

variable {α : Type}

theorem values_eq_map_toList {κ : Type} {cmp : κ → κ → Ordering} (t : Std.TreeMap κ α cmp) :
    t.values = t.toList.map Prod.snd := by
  have hfold : t.values = t.foldr (fun _ v l => v :: l) [] := rfl
  rw [hfold, Std.TreeMap.foldr_eq_foldr_toList]
  induction t.toList with
  | nil => rfl
  | cons a l ih => rw [List.foldr_cons, ih, List.map_cons]

/-- No number occurs twice in a table. -/
theorem nodup_keys_toList (t : Std.TreeMap Nat α) : (t.toList.map Prod.fst).Nodup := by
  rw [Std.TreeMap.map_fst_toList_eq_keys]
  exact Std.TreeMap.nodup_keys

theorem nodup_keys_filter (t : Std.TreeMap Nat α) (p : Nat × α → Bool) :
    ((t.toList.filter p).map Prod.fst).Nodup :=
  (nodup_keys_toList t).sublist (List.filter_sublist.map _)

theorem nodup_toList (t : Std.TreeMap Nat α) : t.toList.Nodup :=
  List.Nodup.of_map Prod.fst (nodup_keys_toList t)

theorem countP_eq_length_keys (t : Std.TreeMap Nat α) (p : Nat × α → Bool) :
    t.toList.countP p = ((t.toList.filter p).map Prod.fst).length := by
  rw [List.length_map, List.countP_eq_length_filter]

theorem getElem?_foldl_erase (ids : List Nat) (t : Std.TreeMap Nat α) (i : Nat) :
    (ids.foldl (·.erase ·) t)[i]? = if i ∈ ids then none else t[i]? := by
  induction ids generalizing t with
  | nil => simp
  | cons a ids ih =>
    rw [List.foldl_cons, ih, Std.TreeMap.getElem?_erase]
    by_cases ha : i = a
    · subst ha
      simp
    · simp [ha, Ne.symm ha]

end Tables

/-! ## Marking round by round -/

section Rounds

variable {ν : Type} {successors : ν → List Nat} {white : Std.TreeMap Nat ν}

/-- One round of marking deals with the first number that is pending. -/
def markRound (successors : ν → List Nat) :
    Std.TreeMap Nat ν × List Nat → Std.TreeMap Nat ν × List Nat
  | (white, []) => (white, [])
  | (white, i :: pending) =>
    match white[i]? with
    | none => (white, pending)
    | some node => (white.erase i, successors node ++ pending)

/-- How many references the nodes of a table make. -/
def referenceCount (successors : ν → List Nat) (white : Std.TreeMap Nat ν) : Nat :=
  (white.toList.map fun (_, node) => (successors node).length).sum

theorem toList_perm_erase {i : Nat} {node : ν} (hi : white[i]? = some node) :
    white.toList.Perm ((i, node) :: (white.erase i).toList) := by
  have hnew : (i, node) ∉ (white.erase i).toList := by
    rw [Std.TreeMap.mem_toList_iff_getElem?_eq_some]
    simp
  refine (List.perm_ext_iff_of_nodup (nodup_toList _) (List.nodup_cons.2 ⟨hnew, nodup_toList _⟩)).2 ?_
  rintro ⟨j, n⟩
  rw [List.mem_cons, Std.TreeMap.mem_toList_iff_getElem?_eq_some,
    Std.TreeMap.mem_toList_iff_getElem?_eq_some]
  by_cases hj : j = i
  · subst hj
    simp [hi, eq_comm]
  · rw [getElem?_erase_of_ne hj]
    simp [hj]

theorem referenceCount_erase {i : Nat} {node : ν} (hi : white[i]? = some node) :
    referenceCount successors white =
      (successors node).length + referenceCount successors (white.erase i) := by
  rw [referenceCount, ((toList_perm_erase hi).map _).sum_eq]
  rfl

/-- **Marking ends.** Each round takes one number off the list, and a node puts its references there
once only. -/
theorem iterate_markRound (pending : List Nat) {n : Nat}
    (hn : pending.length + referenceCount successors white ≤ n) :
    (markRound successors)^[n] (white, pending) = (unreached successors white pending, []) := by
  fun_induction unreached successors white pending generalizing n with
  | case1 white => exact Function.iterate_fixed rfl n
  | case2 white i pending hi ih =>
    obtain ⟨m, rfl⟩ : ∃ m, n = m + 1 := ⟨n - 1, by rw [List.length_cons] at hn; omega⟩
    have hround : markRound successors (white, i :: pending) = (white, pending) := by
      simp only [markRound, hi]
    rw [Function.iterate_succ_apply, hround]
    apply ih
    rw [List.length_cons] at hn
    omega
  | case3 white i pending node hi ih =>
    obtain ⟨m, rfl⟩ : ∃ m, n = m + 1 := ⟨n - 1, by rw [List.length_cons] at hn; omega⟩
    have hround : markRound successors (white, i :: pending) =
        (white.erase i, successors node ++ pending) := by
      simp only [markRound, hi]
    rw [Function.iterate_succ_apply, hround]
    apply ih
    -- The references of the node go from the table to the list, so the bound falls by one only.
    rw [referenceCount_erase hi, List.length_cons] at hn
    rw [List.length_append]
    omega

end Rounds

namespace FrameGraph

/-! ## Counts -/

/-- How often frames and closures are held from outside a graph. -/
structure Holders where
  ofFrame : Nat → Nat
  ofClosure : Nat → Nat

variable (g : FrameGraph)

/-- How many slots hold a closure. -/
def slotCount (k : Nat) : Nat := (g.frames.toList.map fun (_, f) => f.slots.count k).sum

/-- How many frames have the frame as their parent. -/
def childCount (i : Nat) : Nat := g.frames.toList.countP fun (_, f) => f.parent == some i

/-- How many closures were made in the frame, of those that some slot holds. -/
def captureCount (i : Nat) : Nat :=
  g.closures.toList.countP fun (k, c) => c.captured == i && decide (0 < g.slotCount k)

/-- All counts are sums of references from inside and from outside. -/
structure Consistent (out : Holders) : Prop where
  closures : ∀ k c, g.closures[k]? = some c → c.strong = g.slotCount k + out.ofClosure k
  frames : ∀ i f, g.frames[i]? = some f →
    f.strong = g.childCount i + g.captureCount i + out.ofFrame i

instance (out : Holders) : Decidable (g.Consistent out) :=
  decidable_of_iff ((∀ p ∈ g.closures.toList, p.2.strong = g.slotCount p.1 + out.ofClosure p.1) ∧
      ∀ p ∈ g.frames.toList,
        p.2.strong = g.childCount p.1 + g.captureCount p.1 + out.ofFrame p.1)
    ⟨fun h => ⟨fun k c hk => h.1 (k, c) (Std.TreeMap.mem_toList_iff_getElem?_eq_some.2 hk),
        fun i f hi => h.2 (i, f) (Std.TreeMap.mem_toList_iff_getElem?_eq_some.2 hi)⟩,
      fun h => ⟨fun p hp => h.closures p.1 p.2 (Std.TreeMap.mem_toList_iff_getElem?_eq_some.1 hp),
        fun p hp => h.frames p.1 p.2 (Std.TreeMap.mem_toList_iff_getElem?_eq_some.1 hp)⟩⟩

/-- What is led to from a frame that is held from outside, or from the frame that a closure was made
in which is both in a slot and held from outside. -/
inductive Reached (out : Holders) : Nat → Prop
  | frame {i : Nat} : i ∈ g.frames → 0 < out.ofFrame i → Reached out i
  | closure {k : Nat} {c : Bound} : g.closures[k]? = some c → 0 < g.slotCount k →
    0 < out.ofClosure k → Reached out c.captured
  | parent {i j : Nat} {f : Frame} : Reached out i → g.frames[i]? = some f → f.parent = some j →
    Reached out j
  | captured {i k : Nat} {f : Frame} {c : Bound} : Reached out i → g.frames[i]? = some f →
    k ∈ f.slots → g.closures[k]? = some c → Reached out c.captured

/-- The frames that are not reached. -/
def unused (out : Holders) : Set Nat := {i | i ∈ g.frames ∧ ¬ g.Reached out i}

variable {g} {out : Holders} {i j k n : Nat} {c : Bound}

theorem getD_slotCounts (g : FrameGraph) (k : Nat) : g.slotCounts.getD k 0 = g.slotCount k := by
  rw [slotCounts, getD_tally, List.count_flatMap, values_eq_map_toList, List.map_map]
  rfl

theorem getElem?_slotCounts : g.slotCounts[k]? = some n ↔ n = g.slotCount k ∧ 0 < n := by
  have hpos : k ∈ g.slotCounts ↔ 0 < g.slotCount k := by
    rw [← getD_slotCounts, slotCounts, getD_tally, mem_tally, List.count_pos_iff]
  have hget : g.slotCounts[k]?.getD 0 = g.slotCount k := by
    rw [← getD_slotCounts, Std.TreeMap.getD_eq_getD_getElem?]
  rw [mem_table_iff] at hpos
  cases hk : g.slotCounts[k]? with
  | none =>
    simp only [hk, reduceCtorEq, exists_false, false_iff] at hpos
    simp only [reduceCtorEq, false_iff]
    omega
  | some m =>
    simp only [hk, Option.some.injEq, exists_eq', true_iff] at hpos
    rw [hk, Option.getD_some] at hget
    rw [Option.some.injEq]
    omega

/-- The closures that slots hold, with the number of those slots. -/
theorem mem_boundClosures : (c, n) ∈ g.boundClosures ↔
    ∃ k, g.closures[k]? = some c ∧ n = g.slotCount k ∧ 0 < n := by
  rw [boundClosures, List.mem_filterMap]
  constructor
  · rintro ⟨⟨k, m⟩, hk, hc⟩
    obtain ⟨c', hc', heq⟩ := Option.map_eq_some_iff.1 hc
    obtain ⟨rfl, rfl⟩ := Prod.mk.inj heq
    exact ⟨k, hc', getElem?_slotCounts.1 (Std.TreeMap.mem_toList_iff_getElem?_eq_some.1 hk)⟩
  · rintro ⟨k, hc, hn⟩
    refine ⟨(k, n), Std.TreeMap.mem_toList_iff_getElem?_eq_some.2 (getElem?_slotCounts.2 hn), ?_⟩
    exact Option.map_eq_some_iff.2 ⟨c, hc, rfl⟩

/-- A closure refers to its frame once, in however many slots it is. -/
theorem count_captured_boundClosures (g : FrameGraph) (i : Nat) :
    (g.boundClosures.map (·.1.captured)).count i = g.captureCount i := by
  have hcount : (g.boundClosures.map (·.1.captured)).count i =
      g.slotCounts.toList.countP fun p => g.closures[p.1]?.map Bound.captured == some i := by
    rw [boundClosures, List.map_filterMap, List.count_filterMap]
    congr
    funext p
    rw [Option.map_map]
    rfl
  rw [hcount, captureCount, countP_eq_length_keys, countP_eq_length_keys]
  -- Both sides count the numbers of closures, and no number occurs twice in a table.
  refine List.Perm.length_eq ((List.perm_ext_iff_of_nodup (nodup_keys_filter _ _)
    (nodup_keys_filter _ _)).2 fun k => ?_)
  simp only [List.mem_map, List.mem_filter, Prod.exists, exists_and_right, exists_eq_right,
    Std.TreeMap.mem_toList_iff_getElem?_eq_some, getElem?_slotCounts, beq_iff_eq, Bool.and_eq_true,
    decide_eq_true_eq, Option.map_eq_some_iff]
  constructor
  · rintro ⟨⟨n, rfl, hn⟩, c, hc, hi⟩
    exact ⟨c, hc, hi, hn⟩
  · rintro ⟨c, hc, hi, hn⟩
    exact ⟨⟨_, rfl, hn⟩, c, hc, hi⟩

/-- **What is subtracted** are the references from inside. -/
theorem getD_internal (g : FrameGraph) (i : Nat) :
    g.internal.getD i 0 = g.childCount i + g.captureCount i := by
  rw [internal, getD_tally, List.count_append, count_captured_boundClosures, values_eq_map_toList,
    List.count_filterMap, List.countP_map]
  rfl

/-! ## What is taken -/

/-- **The anchors** are what has a holder outside. -/
theorem mem_anchors_iff (hc : g.Consistent out) : i ∈ g.anchors ↔
    i ∈ g.frames ∧ 0 < out.ofFrame i ∨ ∃ k c, g.closures[k]? = some c ∧ 0 < g.slotCount k ∧
      0 < out.ofClosure k ∧ c.captured = i := by
  rw [anchors, List.mem_append]
  refine or_congr ?_ ?_
  · simp only [List.mem_map, List.mem_filter, Prod.exists, exists_and_right, exists_eq_right,
      Std.TreeMap.mem_toList_iff_getElem?_eq_some, decide_eq_true_eq, getD_internal, mem_table_iff]
    constructor
    · rintro ⟨f, hf, hlt⟩
      have hcount := hc.frames i f hf
      exact ⟨⟨f, hf⟩, by omega⟩
    · rintro ⟨⟨f, hf⟩, hpos⟩
      have hcount := hc.frames i f hf
      exact ⟨f, hf, by omega⟩
  · simp only [List.mem_map, List.mem_filter, Prod.exists, mem_boundClosures, decide_eq_true_eq]
    constructor
    · rintro ⟨c, n, ⟨⟨k, hk, rfl, hpos⟩, hlt⟩, hi⟩
      have hcount := hc.closures k c hk
      exact ⟨k, c, hk, hpos, by omega, hi⟩
    · rintro ⟨k, c, hk, hslot, hpos, hi⟩
      have hcount := hc.closures k c hk
      exact ⟨c, g.slotCount k, ⟨⟨k, hk, rfl, hslot⟩, by omega⟩, hi⟩

theorem edge_iff : Edge g.successors g.frames i j ↔ ∃ f, g.frames[i]? = some f ∧
    (f.parent = some j ∨ ∃ k ∈ f.slots, ∃ c, g.closures[k]? = some c ∧ c.captured = j) := by
  simp only [Edge, successors, List.mem_append, List.mem_filterMap, Option.mem_toList,
    Option.map_eq_some_iff]

theorem reached_iff (hc : g.Consistent out) : g.Reached out i ↔
    ∃ a ∈ g.anchors, Path g.successors g.frames a i := by
  constructor
  · intro hr
    induction hr with
    | frame hi hpos => exact ⟨_, (mem_anchors_iff hc).2 (.inl ⟨hi, hpos⟩), .refl⟩
    | closure hk hslot hpos =>
      exact ⟨_, (mem_anchors_iff hc).2 (.inr ⟨_, _, hk, hslot, hpos, rfl⟩), .refl⟩
    | parent _ hf hj ih =>
      obtain ⟨a, ha, hpath⟩ := ih
      exact ⟨a, ha, hpath.tail (edge_iff.2 ⟨_, hf, .inl hj⟩)⟩
    | captured _ hf hk hc ih =>
      obtain ⟨a, ha, hpath⟩ := ih
      exact ⟨a, ha, hpath.tail (edge_iff.2 ⟨_, hf, .inr ⟨_, hk, _, hc, rfl⟩⟩)⟩
  · rintro ⟨a, ha, hpath⟩
    induction hpath with
    | refl =>
      rcases (mem_anchors_iff hc).1 ha with ⟨hi, hpos⟩ | ⟨k, c, hk, hslot, hpos, rfl⟩
      · exact .frame hi hpos
      · exact .closure hk hslot hpos
    | tail _ he ih =>
      obtain ⟨f, hf, hj | ⟨k, hk, c, hck, rfl⟩⟩ := edge_iff.1 he
      · exact .parent ih hf hj
      · exact .captured ih hf hk hck

/-- **Garbage** is what is not reached. -/
theorem mem_garbage_iff_unused (hc : g.Consistent out) : i ∈ g.garbage ↔ i ∈ g.unused out := by
  rw [garbage, Std.TreeMap.mem_keys, mem_unreached_iff, ← reached_iff hc]
  rfl

theorem length_garbage (hc : g.Consistent out) : g.garbage.length = (g.unused out).ncard := by
  have hset : g.unused out = (g.garbage.toFinset : Set Nat) := by
    ext i
    rw [Finset.mem_coe, List.mem_toFinset, mem_garbage_iff_unused hc]
  have hnodup : g.garbage.Nodup := Std.TreeMap.nodup_keys
  rw [hset, Set.ncard_coe_finset, List.toFinset_card_of_nodup hnodup]

/-- **Trial deletion is exact**: the frames taken are those that are not reached from outside. It
tells how many they are, and leaves what is kept for all other frames as it was. Marking is over
after as many rounds as there are anchors and references. -/
theorem collect_exact (hc : g.Consistent out) {α : Type} (bindings : Std.TreeMap Nat α) :
    (∀ i, i ∈ g.garbage ↔ i ∈ g.frames ∧ ¬ g.Reached out i) ∧
    (g.collect bindings).1 = {i | i ∈ g.frames ∧ ¬ g.Reached out i}.ncard ∧
    (∀ i, i ∈ g.frames → ¬ g.Reached out i → (g.collect bindings).2[i]? = none) ∧
    (∀ i, (i ∈ g.frames → g.Reached out i) → (g.collect bindings).2[i]? = bindings[i]?) ∧
    ∀ n, g.anchors.length + referenceCount g.successors g.frames ≤ n →
      ∃ rest, (markRound g.successors)^[n] (g.frames, g.anchors) = (rest, []) ∧
        rest.keys = g.garbage := by
  have hgarbage : ∀ i, i ∈ g.garbage ↔ i ∈ g.frames ∧ ¬ g.Reached out i :=
    fun i => mem_garbage_iff_unused hc
  have htable : ∀ i : Nat, (g.collect bindings).2[i]? =
      if i ∈ g.garbage then none else bindings[i]? :=
    getElem?_foldl_erase g.garbage bindings
  refine ⟨hgarbage, length_garbage hc, fun i hi hr => ?_, fun i hi => ?_, fun n hn => ?_⟩
  · rw [htable, if_pos ((hgarbage i).2 ⟨hi, hr⟩)]
  · rw [htable, if_neg]
    intro hmem
    obtain ⟨hframe, hr⟩ := (hgarbage i).1 hmem
    exact hr (hi hframe)
  · exact ⟨_, iterate_markRound g.anchors hn, rfl⟩

/-- A closure in three slots of two frames, which is also held from outside, keeps both of them; two
frames that only refer to each other go. The scope `9` is not part of the graph. -/
theorem collect_exact_sharedClosure :
    let frames := Std.TreeMap.ofList
      [(0, Frame.mk (some 9) [0, 0] 1), (1, ⟨some 0, [0], 1⟩), (2, ⟨some 9, [1], 1⟩),
        (3, ⟨some 2, [], 1⟩)]
    let g : FrameGraph := ⟨frames, Std.TreeMap.ofList [(0, Bound.mk 1 4), (1, ⟨3, 1⟩)]⟩
    let out : Holders := ⟨fun _ => 0, fun k => if k = 0 then 1 else 0⟩
    g.Consistent out ∧ (g.collect frames).1 = 2 ∧
      (g.collect frames).1 = {i | i ∈ g.frames ∧ ¬ g.Reached out i}.ncard := by
  intro frames g out
  have hc : g.Consistent out := by decide +kernel
  obtain ⟨-, hnumber, -, -, hrounds⟩ := collect_exact hc frames
  obtain ⟨rest, hmarked, hkeys⟩ := hrounds 9 (by decide +kernel)
  have hleft : ((markRound g.successors)^[9] (g.frames, g.anchors)).1.keys.length = 2 := by
    decide +kernel
  rw [hmarked, hkeys] at hleft
  exact ⟨hc, hleft, hnumber⟩

end FrameGraph

end GeoScript
