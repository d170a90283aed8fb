import GeoScript.Heap.Marking
import Mathlib.Logic.Relation

/-!
# Marking removes exactly what is reached

**Theorem (`mem_unreached_iff`).** What marking leaves of a table is what no path leads to from the
starting points.

The walk removes a node before it visits its successors, so a path is followed through a table that
shrinks. Instead of paths the induction carries three facts about what was removed: all starting
points are (`not_mem_unreached_of_mem`), all successors of what is removed are
(`not_mem_unreached_of_edge`), and nothing is without a path to it (`exists_path_of_removed`).
-/

namespace GeoScript

variable {ν : Type} {successors : ν → List Nat} {white : Std.TreeMap Nat ν} {pending : List Nat}
  {i j p : Nat}

/-- The table has a node at `i`, and `j` is one of its successors. -/
def Edge (successors : ν → List Nat) (white : Std.TreeMap Nat ν) (i j : Nat) : Prop :=
  ∃ node, white[i]? = some node ∧ j ∈ successors node

/-- A path through nodes of the table. -/
def Path (successors : ν → List Nat) (white : Std.TreeMap Nat ν) : Nat → Nat → Prop :=
  Relation.ReflTransGen (Edge successors white)

theorem mem_table_iff : i ∈ white ↔ ∃ node, white[i]? = some node := by
  rw [Std.TreeMap.mem_iff_isSome_getElem?, Option.isSome_iff_exists]

theorem getElem?_erase_of_ne (h : i ≠ j) : (white.erase j)[i]? = white[i]? := by
  rw [Std.TreeMap.getElem?_erase, if_neg]
  simpa using Ne.symm h

theorem Path.of_erase (h : Path successors (white.erase p) i j) : Path successors white i j := by
  have hstep : ∀ a b, Edge successors (white.erase p) a b → Edge successors white a b := by
    rintro a b ⟨node, ha, hb⟩
    refine ⟨node, ?_, hb⟩
    by_cases hap : a = p
    · subst hap
      simp at ha
    · rwa [getElem?_erase_of_ne hap] at ha
  exact Relation.ReflTransGen.mono hstep _ _ h

/-- Marking only removes nodes. -/
theorem getElem?_of_getElem?_unreached {n : ν}
    (h : (unreached successors white pending)[i]? = some n) : white[i]? = some n := by
  fun_induction unreached successors white pending with
  | case1 white => exact h
  | case2 white p pending hp ih => exact ih h
  | case3 white p pending node hp ih =>
    have hi := ih h
    by_cases hip : i = p
    · subst hip
      simp at hi
    · rwa [getElem?_erase_of_ne hip] at hi

theorem mem_of_mem_unreached (h : i ∈ unreached successors white pending) : i ∈ white := by
  obtain ⟨n, hn⟩ := mem_table_iff.1 h
  exact mem_table_iff.2 ⟨n, getElem?_of_getElem?_unreached hn⟩

theorem not_mem_unreached_of_mem (h : i ∈ pending) : i ∉ unreached successors white pending := by
  fun_induction unreached successors white pending with
  | case1 white => cases h
  | case2 white p pending hp ih =>
    rcases List.mem_cons.1 h with rfl | h
    · intro hmem
      obtain ⟨n, hn⟩ := mem_table_iff.1 (mem_of_mem_unreached hmem)
      rw [hp] at hn
      cases hn
    · exact ih h
  | case3 white p pending node hp ih =>
    rcases List.mem_cons.1 h with rfl | h
    · intro hmem
      have := mem_of_mem_unreached hmem
      simp at this
    · exact ih (List.mem_append_right _ h)

theorem not_mem_unreached_of_edge (he : Edge successors white i j)
    (hi : i ∉ unreached successors white pending) : j ∉ unreached successors white pending := by
  fun_induction unreached successors white pending with
  | case1 white =>
    obtain ⟨node, hn, -⟩ := he
    exact absurd (mem_table_iff.2 ⟨node, hn⟩) hi
  | case2 white p pending hp ih => exact ih he hi
  | case3 white p pending node hp ih =>
    obtain ⟨n, hn, hj⟩ := he
    by_cases hip : i = p
    · -- The node that is removed now: its successors are pending next.
      subst hip
      rw [hp] at hn
      obtain rfl := Option.some.inj hn
      exact not_mem_unreached_of_mem (List.mem_append_left _ hj)
    · exact ih ⟨n, (getElem?_erase_of_ne hip).trans hn, hj⟩ hi

theorem exists_path_of_removed (hi : i ∈ white)
    (hr : i ∉ unreached successors white pending) :
    ∃ p ∈ pending, Path successors white p i := by
  fun_induction unreached successors white pending with
  | case1 white => exact absurd hi hr
  | case2 white p pending hp ih =>
    obtain ⟨q, hq, hpath⟩ := ih hi hr
    exact ⟨q, List.mem_cons_of_mem _ hq, hpath⟩
  | case3 white p pending node hp ih =>
    by_cases hip : i = p
    · exact ⟨p, List.mem_cons_self, hip ▸ .refl⟩
    · have hi' : i ∈ white.erase p := by
        rw [Std.TreeMap.mem_erase]
        exact ⟨by simpa using Ne.symm hip, hi⟩
      obtain ⟨q, hq, hpath⟩ := ih hi' hr
      rcases List.mem_append.1 hq with hq | hq
      · exact ⟨p, List.mem_cons_self, .head ⟨node, hp, hq⟩ hpath.of_erase⟩
      · exact ⟨q, List.mem_cons_of_mem _ hq, hpath.of_erase⟩

/-- **What is left is what no path leads to.** -/
theorem mem_unreached_iff : i ∈ unreached successors white pending ↔
    i ∈ white ∧ ¬ ∃ p ∈ pending, Path successors white p i := by
  refine ⟨fun h => ⟨mem_of_mem_unreached h, ?_⟩, fun ⟨hi, hn⟩ => ?_⟩
  · rintro ⟨p, hp, hpath⟩
    refine absurd h ?_
    clear h
    induction hpath with
    | refl => exact not_mem_unreached_of_mem hp
    | tail _ he ih => exact not_mem_unreached_of_edge he ih
  · exact Classical.byContradiction fun hr => hn (exists_path_of_removed hi hr)

/-! ## Counting -/

theorem getD_tally (ids : List Nat) (i : Nat) : (tally ids).getD i 0 = ids.count i := by
  suffices h : ∀ counts : Std.TreeMap Nat Nat,
      (ids.foldl (fun counts i => counts.insert i (counts.getD i 0 + 1)) counts).getD i 0 =
        counts.getD i 0 + ids.count i by
    simpa [tally] using h ∅
  induction ids with
  | nil => intro counts; rfl
  | cons a ids ih =>
    intro counts
    rw [List.foldl_cons, ih, Std.TreeMap.getD_insert, List.count_cons]
    by_cases ha : a = i
    · subst ha
      simp
      omega
    · simp [ha]

theorem mem_tally {ids : List Nat} : i ∈ tally ids ↔ i ∈ ids := by
  suffices h : ∀ counts : Std.TreeMap Nat Nat,
      i ∈ ids.foldl (fun counts i => counts.insert i (counts.getD i 0 + 1)) counts ↔
        i ∈ counts ∨ i ∈ ids by
    simpa [tally] using h ∅
  induction ids with
  | nil => intro counts; simp
  | cons a ids ih =>
    intro counts
    rw [List.foldl_cons, ih, Std.TreeMap.mem_insert, List.mem_cons]
    simp only [Nat.compare_eq_eq]
    by_cases ha : a = i
    · simp [ha]
    · simp [ha, Ne.symm ha]

end GeoScript
