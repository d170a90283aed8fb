import Std.Data.TreeMap.Lemmas

/-!
# Marking

`unreached` removes from a table of nodes all that can be reached from a list of starting points.
What is left is what nothing leads to. A node is removed before its successors are visited, so
the loop ends although the graph may be cyclic.
-/

namespace GeoScript

variable {ν : Type}

/-- The nodes of `white` that are not reached from `pending` through nodes of `white`. -/
def unreached (successors : ν → List Nat) (white : Std.TreeMap Nat ν) :
    List Nat → Std.TreeMap Nat ν
  | [] => white
  | i :: pending =>
    match _h : white[i]? with
    | none => unreached successors white pending
    | some node => unreached successors (white.erase i) (successors node ++ pending)
termination_by pending => (white.size, pending.length)
decreasing_by
  · exact Prod.Lex.right _ (Nat.lt_succ_self _)
  · have hmem : i ∈ white := Std.TreeMap.mem_iff_isSome_getElem?.2 (by simp [_h])
    have hpos : 0 < white.size := by
      have hne : white.isEmpty = false := Std.TreeMap.isEmpty_eq_false_iff_exists_mem.2 ⟨i, hmem⟩
      rw [Std.TreeMap.isEmpty_eq_size_eq_zero] at hne
      simpa [Nat.pos_iff_ne_zero] using hne
    apply Prod.Lex.left
    rw [Std.TreeMap.size_erase, if_pos (Std.TreeMap.contains_iff_mem.2 hmem)]
    omega

/-- How often each number occurs in a list. -/
def tally (ids : List Nat) : Std.TreeMap Nat Nat :=
  ids.foldl (fun counts i => counts.insert i (counts.getD i 0 + 1)) ∅

end GeoScript
