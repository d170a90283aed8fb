import GeoScript.Proofs.Confinement
import GeoScript.Proofs.Rooted
import Mathlib.Data.Set.Insert

/-!
# Reclamation cannot be seen

**The reference.** With `reclaims` off a heap gives nothing back: frames stay when their calls end,
nothing is collected, and closures are bound as they are (`keeping`).

**Theorem (`observe_keeping`).** A sequence of texts evaluated in one root gives the same outcomes
on both heaps, step by step, and leaves the same value under every name of the root. Since numbers
of scopes are never used twice, both runs number their frames alike, so the values are equal and
not only alike.

**The relation.** Two heaps are alike on a set of scopes if these are in both, with the same
ancestors and the same values, and if whatever they lead to is in the set (`Alike`). The set grows
with every frame that is made. It falls back to what it was when a call ends without a closure: that
set is still closed, because the call has changed none of its scopes. After a collection it is what
the root leads to.
-/

namespace GeoScript

namespace Heap

variable {A B : Set ScopeId} {h h' k k' : Heap} {id j p c : ScopeId} {name : String} {v : Value}

/-! ## Values under names -/

theorem local?_store_self (hs : id ∈ h.scopes) : (h.store id name v).local? name id = some v := by
  obtain ⟨s, hs⟩ := mem_table_iff.1 hs
  rw [local?_eq, slot?_store_self hs, Option.map_some, load_slotFor]

/-- Binding a name in a scope changes no other slot there, and none elsewhere. -/
theorem slot?_store_other {other : String} (hne : j = id → other ≠ name) :
    (h.store id name v).slot? j other = h.slot? j other := by
  by_cases hj : j = id
  · subst hj
    exact slot?_store_ne (Ne.symm (hne rfl))
  · exact slot?_congr (scopes_store_ne hj)

theorem local?_store_ne {other : String} (hne : j = id → other ≠ name) :
    (h.store id name v).local? other j = h.local? other j := by
  rw [local?_eq, local?_eq, slot?_store_other hne]

theorem local?_congr (hs : h'.scopes[id]? = h.scopes[id]?) : h'.local? name id = h.local? name id := by
  rw [local?_eq, local?_eq, slot?_congr hs]

/-- Whatever a name stands for was made in the scope itself or in one that it refers to. -/
theorem refers_of_local? {f : Lambda} (hl : h.local? name id = some (.closure ⟨f, c⟩)) :
    c = id ∨ h.Refers id c := by
  obtain ⟨slot, hslot, hload⟩ := Option.map_eq_some_iff.1 hl
  obtain ⟨s, hs, hname⟩ := Option.bind_eq_some_iff.1 hslot
  cases slot with
  | own g => exact Or.inl (Closure.mk.inj (Value.closure.inj hload)).2.symm
  | value u =>
    obtain rfl : u = .closure ⟨f, c⟩ := hload
    refine Or.inr ⟨s, hs, List.mem_append_right _ ?_⟩
    exact Scope.mem_captures.2 ⟨name, _, hname, rfl⟩

/-! ## Heaps that are alike -/

/-- The heaps agree on the scopes of `A`, which lead only to scopes of `A`. -/
structure Alike (A : Set ScopeId) (h k : Heap) : Prop where
  next : k.next = h.next
  programs : k.programs = h.programs
  draws : k.draws = h.draws
  below : ∀ id ∈ A, id < h.next
  parent : ∀ id ∈ A, ∃ s, h.scopes[id]? = some s ∧
    (s.ancestors = [] ∨ ∃ p ∈ A, s.ancestors = h.chain p)
  ancestors : ∀ id ∈ A, k.scopes[id]?.map Scope.ancestors = h.scopes[id]?.map Scope.ancestors
  values : ∀ id ∈ A, ∀ name, k.local? name id = h.local? name id
  closures : ∀ id ∈ A, ∀ name f c, h.local? name id = some (.closure ⟨f, c⟩) → c ∈ A

namespace Alike

theorem mem_left (ha : Alike A h k) (hid : id ∈ A) : id ∈ h.scopes := by
  obtain ⟨s, hs, -⟩ := ha.parent id hid
  exact mem_table_iff.2 ⟨s, hs⟩

theorem mem_right (ha : Alike A h k) (hid : id ∈ A) : id ∈ k.scopes := by
  rw [Std.TreeMap.mem_iff_isSome_getElem?, ← Option.isSome_map (f := Scope.ancestors),
    ha.ancestors id hid, Option.isSome_map]
  exact Std.TreeMap.mem_iff_isSome_getElem?.1 (ha.mem_left hid)

theorem chain_eq (ha : Alike A h k) (hid : id ∈ A) : k.chain id = h.chain id :=
  chain_congr (ha.ancestors id hid)

/-- A scope and all those around it are in the set. -/
theorem mem_of_mem_chain (ha : Alike A h k) (hid : id ∈ A) : ∀ a ∈ h.chain id, a ∈ A := by
  obtain ⟨s, hs, hparent⟩ := ha.parent id hid
  -- On the number of ancestors: the parent has one less.
  induction hn : s.ancestors.length generalizing id s with
  | zero =>
    intro a hmem
    rw [chain, hs, Option.map_some, Option.getD_some, List.length_eq_zero_iff.1 hn] at hmem
    rw [List.mem_singleton.1 hmem]
    exact hid
  | succ n ih =>
    intro a hmem
    rcases hparent with hnil | ⟨p, hp, hanc⟩
    · simp [hnil] at hn
    · obtain ⟨t, ht, htp⟩ := ha.parent p hp
      rw [chain, hs, Option.map_some, Option.getD_some, hanc] at hmem
      rcases List.mem_cons.1 hmem with rfl | hmem
      · exact hid
      · refine ih hp t ht htp ?_ a hmem
        simpa [hanc, chain, ht] using hn

/-- Names mean the same seen from a scope of the set. -/
theorem resolve_eq (ha : Alike A h k) (hid : id ∈ A) (name : String) :
    k.resolve id name = h.resolve id name := by
  rw [resolve, resolve, ha.chain_eq hid]
  have hchain := ha.mem_of_mem_chain hid
  generalize h.chain id = l at hchain ⊢
  induction l with
  | nil => rfl
  | cons a l ih =>
    rw [List.findSome?_cons, List.findSome?_cons, ha.values a (hchain a List.mem_cons_self),
      ih fun b hb => hchain b (List.mem_cons_of_mem _ hb)]

theorem mem_of_resolve {f : Lambda} (ha : Alike A h k) (hid : id ∈ A)
    (hv : h.resolve id name = some (.closure ⟨f, c⟩)) : c ∈ A := by
  obtain ⟨a, hmem, hl⟩ := List.exists_of_findSome?_eq_some hv
  exact ha.closures a (ha.mem_of_mem_chain hid a hmem) name f c hl

/-- Whatever the scopes of the set lead to is in the set. -/
theorem mem_of_refers (ha : Alike A h k) (hid : id ∈ A) (hr : h.Refers id j) : j ∈ A := by
  obtain ⟨s, hs, hj⟩ := hr
  rcases List.mem_append.1 hj with hj | hj
  · obtain ⟨t, ht, hparent⟩ := ha.parent id hid
    obtain rfl := Option.some.inj (ht.symm.trans hs)
    rcases hparent with hnil | ⟨p, hp, hanc⟩
    · simp [Scope.parent?, hnil] at hj
    · have hjp : j = p := by simpa [Scope.parent?, hanc, chain] using hj
      rw [hjp]
      exact hp
  · obtain ⟨name, slot, hslot, hcap⟩ := Scope.mem_captures.1 hj
    cases slot with
    | own g => cases hcap
    | value u =>
      cases u with
      | closure f =>
        obtain rfl := Option.some.inj hcap
        refine ha.closures id hid name f.lambda f.scope ?_
        rw [local?_eq, slot?, hs, Option.bind_some, hslot]
        rfl
      | _ => cases hcap

/-- Heaps stay alike when the scopes of the set stay as they are. -/
theorem of_keeps (ha : Alike A h k) (hh : ∀ id ∈ A, h'.scopes[id]? = h.scopes[id]?)
    (hk : ∀ id ∈ A, k'.scopes[id]? = k.scopes[id]?) (hle : h.next ≤ h'.next)
    (hnext : k'.next = h'.next) (hprograms : k'.programs = h'.programs)
    (hdraws : k'.draws = h'.draws) : Alike A h' k' where
  next := hnext
  programs := hprograms
  draws := hdraws
  below id hid := Nat.lt_of_lt_of_le (ha.below id hid) hle
  parent id hid := by
    obtain ⟨s, hs, hparent⟩ := ha.parent id hid
    refine ⟨s, (hh id hid).trans hs, hparent.imp_right fun ⟨p, hp, hanc⟩ => ⟨p, hp, ?_⟩⟩
    rw [hanc, chain_congr (by rw [hh p hp])]
  ancestors id hid := by rw [hk id hid, hh id hid, ha.ancestors id hid]
  values id hid name := by
    rw [local?_congr (hk id hid), local?_congr (hh id hid), ha.values id hid name]
  closures id hid name f c hl := by
    rw [local?_congr (hh id hid)] at hl
    exact ha.closures id hid name f c hl

/-- Heaps are alike on every part of the set that leads nowhere else. -/
theorem restrict (ha : Alike A h k) (hB : ∀ id ∈ B, id ∈ A)
    (hclosed : ∀ i j, i ∈ B → h.Refers i j → j ∈ B) : Alike B h k where
  next := ha.next
  programs := ha.programs
  draws := ha.draws
  below id hid := ha.below id (hB id hid)
  parent id hid := by
    obtain ⟨s, hs, hparent⟩ := ha.parent id (hB id hid)
    refine ⟨s, hs, hparent.imp_right fun ⟨p, _, hanc⟩ => ⟨p, ?_, hanc⟩⟩
    refine hclosed id p hid ⟨s, hs, ?_⟩
    simp [Scope.references, Scope.parent?, hanc, chain]
  ancestors id hid := ha.ancestors id (hB id hid)
  values id hid := ha.values id (hB id hid)
  closures id hid name f c hl := by
    rcases refers_of_local? hl with rfl | hr
    · exact hid
    · exact hclosed id c hid hr

/-! ## Operations keep heaps alike -/

theorem store (ha : Alike A h k) (hid : id ∈ A) (hv : ∀ f c, v = .closure ⟨f, c⟩ → c ∈ A) :
    Alike A (h.store id name v) (k.store id name v) where
  next := ha.next
  programs := ha.programs
  draws := ha.draws
  below := ha.below
  parent i hi := by
    obtain ⟨s, hs, hparent⟩ := ha.parent i hi
    have hanc : (h.store id name v).scopes[i]?.map Scope.ancestors = some s.ancestors := by
      rw [ancestors_store, hs, Option.map_some]
    obtain ⟨t, ht, hts⟩ := Option.map_eq_some_iff.1 hanc
    refine ⟨t, ht, ?_⟩
    rw [hts]
    exact hparent.imp_right fun ⟨p, hp, hchain⟩ =>
      ⟨p, hp, hchain.trans (chain_congr ancestors_store).symm⟩
  ancestors i hi := by rw [ancestors_store, ancestors_store, ha.ancestors i hi]
  values i hi other := by
    by_cases hio : i = id ∧ other = name
    · obtain ⟨rfl, rfl⟩ := hio
      rw [local?_store_self (ha.mem_left hi), local?_store_self (ha.mem_right hi)]
    · have hne : i = id → other ≠ name := fun hi ho => hio ⟨hi, ho⟩
      rw [local?_store_ne hne, local?_store_ne hne, ha.values i hi other]
  closures i hi other f c hl := by
    by_cases hio : i = id ∧ other = name
    · obtain ⟨rfl, rfl⟩ := hio
      rw [local?_store_self (ha.mem_left hi)] at hl
      exact hv f c (Option.some.inj hl)
    · rw [local?_store_ne fun hi ho => hio ⟨hi, ho⟩] at hl
      exact ha.closures i hi other f c hl

theorem random (ha : Alike A h k) : Alike A h.random.2 k.random.2 := by
  have hdraws := (random_congr ha.draws).2
  obtain ⟨draws, hh⟩ := random_eq h
  obtain ⟨draws', hk⟩ := random_eq k
  rw [hh, hk] at hdraws ⊢
  exact ha.of_keeps (fun _ _ => rfl) (fun _ _ => rfl) (Nat.le_refl _) ha.next ha.programs hdraws

theorem program (ha : Alike A h k) :
    Alike A { h with programs := h.programs + 1 } { k with programs := k.programs + 1 } :=
  ha.of_keeps (fun _ _ => rfl) (fun _ _ => rfl) (Nat.le_refl _) ha.next
    (congrArg Nat.succ ha.programs) ha.draws

theorem local?_newChild (h : Heap) (p : ScopeId) (name : String) :
    (h.newChild p).2.local? name h.next = none := by
  rw [local?_eq, slot?, scopes_newChild_self]
  simp

theorem newChild (ha : Alike A h k) (hp : p ∈ A) :
    Alike (insert h.next A) (h.newChild p).2 (k.newChild p).2 := by
  have hne : ∀ i ∈ A, i ≠ h.next := fun i hi => Nat.ne_of_lt (ha.below i hi)
  have hold : Alike A (h.newChild p).2 (k.newChild p).2 := by
    refine ha.of_keeps (fun i hi => scopes_newChild_ne (hne i hi)) (fun i hi => ?_)
      (Nat.le_succ _) (congrArg Nat.succ ha.next) ha.programs ha.draws
    exact scopes_newChild_ne (by rw [ha.next]; exact hne i hi)
  have hself := scopes_newChild_self h p
  have hself' : (k.newChild p).2.scopes[h.next]? = some ⟨∅, h.chain p⟩ := by
    rw [← ha.next, scopes_newChild_self, ha.chain_eq hp]
  refine ⟨hold.next, hold.programs, hold.draws, ?_, ?_, ?_, ?_, ?_⟩
  · rintro i (rfl | hi)
    · exact Nat.lt_succ_self _
    · exact hold.below i hi
  · rintro i (rfl | hi)
    · refine ⟨_, hself, Or.inr ⟨p, Or.inr hp, ?_⟩⟩
      exact (chain_congr (by rw [scopes_newChild_ne (hne p hp)])).symm
    · obtain ⟨s, hs, hparent⟩ := hold.parent i hi
      exact ⟨s, hs, hparent.imp_right fun ⟨q, hq, hanc⟩ => ⟨q, Or.inr hq, hanc⟩⟩
  · rintro i (rfl | hi)
    · rw [hself, hself']
    · exact hold.ancestors i hi
  · rintro i (rfl | hi) name
    · rw [local?_newChild, ← ha.next, local?_newChild]
    · exact hold.values i hi name
  · rintro i (rfl | hi) name f c hl
    · rw [local?_newChild] at hl
      cases hl
    · exact Or.inr (hold.closures i hi name f c hl)

/-- After a call that has changed none of its scopes the set is as good as before. -/
theorem release (ha : Alike A h k) (hb : Alike B h' k') (hh : Keeps h (h'.release h.next))
    (hk : Keeps k (k'.release h.next)) :
    Alike A (h'.release h.next) (k'.release h.next) := by
  have hrel : ∀ g : Heap, g.release h.next = { g with scopes := (g.release h.next).scopes } :=
    leave_eq h.next (.ok .unit)
  refine ha.of_keeps (fun i hi => hh.scopes i (ha.below i hi)) (fun i hi => ?_) hh.next_le ?_ ?_ ?_
  · exact hk.scopes i (by rw [ha.next]; exact ha.below i hi)
  · rw [hrel h', hrel k']
    exact hb.next
  · rw [hrel h', hrel k']
    exact hb.programs
  · rw [hrel h', hrel k']
    exact hb.draws

end Alike

end Heap

open Heap

/-! ## Programs run alike -/

/-- Heaps that are alike, on ever larger sets. -/
def alikeCoupling : Coupling where
  World := Set ScopeId
  Le A B := A ⊆ B
  refl _ _ hid := hid
  trans h₁ h₂ _ hid := h₂ (h₁ hid)
  Holds := Alike
  Knows A id := id ∈ A
  knows_mono hle hid := hle hid

theorem stable_alike : alikeCoupling.Stable where
  resolve := by
    intro A h k scope name ha hs
    refine ⟨Alike.resolve_eq ha hs name, fun v hv => Coupling.knowsValue_iff.2 fun f c hvc => ?_⟩
    exact Alike.mem_of_resolve ha hs (hvc ▸ hv)
  store := by
    intro A h k scope v name ha hs hv
    exact ⟨A, fun _ hid => hid, Alike.store ha hs (Coupling.knowsValue_iff.1 hv)⟩
  random := by
    intro A h k ha
    exact ⟨(random_congr (Alike.draws ha)).1, A, fun _ hid => hid, Alike.random ha⟩
  newChild := by
    intro A h k parent ha hp
    exact ⟨Alike.next ha, (insert h.next A : Set ScopeId), Set.subset_insert _ _,
      Set.mem_insert _ _, Alike.newChild ha hp⟩
  release := by
    intro A B h h' k k' ha hb hh hk
    exact ⟨A, fun _ hid => hid, Alike.release ha hb hh hk⟩
  program := by
    intro A h k ha
    exact ⟨Alike.programs ha, A, fun _ hid => hid, Alike.program ha⟩

/-! ## Sequences of texts -/

namespace Heap

/-- The heap as it is, with nothing given back from now on. -/
def keeping (h : Heap) : Heap := { h with reclaims := false }

/-- What is seen of texts evaluated in a root one after the other: each outcome, and what every name
of the root stands for afterwards. -/
def observe (root : ScopeId) :
    Heap → List String → List (Except Error Value × (String → Option Value))
  | _, [] => []
  | h, source :: rest =>
    let (result, h) := evaluate source root h
    (result, h.resolve root) :: observe root h rest

theorem observe_cons (root : ScopeId) (h : Heap) (source : String) (rest : List String) :
    h.observe root (source :: rest) = ((evaluate source root h).1,
      (evaluate source root h).2.resolve root) :: (evaluate source root h).2.observe root rest :=
  rfl

variable {A : Set ScopeId} {root : ScopeId} {h k : Heap}

/-- Collecting leaves the heaps alike on what a held root leads to. -/
theorem Alike.collect (ha : Alike A h k) (hroot : root ∈ A) (hheld : root ∈ h.held)
    (r : ScopeId) : Alike {id | h.Leads root id} (h.collect r) k := by
  have hsub : ∀ id, h.Leads root id → id ∈ A := by
    intro id hl
    induction hl with
    | refl => exact hroot
    | tail _ hbc ih => exact ha.mem_of_refers ih hbc
  have hreach : Alike {id | h.Leads root id} h k :=
    ha.restrict hsub fun i j hi hij => Relation.ReflTransGen.tail hi hij
  refine hreach.of_keeps (fun id hl => ?_) (fun _ _ => rfl) ?_ ?_ ?_ ?_
  · exact scopes_collect_of_inUse ⟨root, hheld, hl⟩ r
  all_goals rw [collect_eq]
  · exact ha.next
  · exact ha.programs
  · exact ha.draws

/-- **One evaluation** ends alike on heaps that are alike, and leaves them alike. -/
theorem Alike.evaluate (ha : Alike A h k) (hroot : root ∈ A) (hheld : root ∈ h.held)
    (hkeep : k.reclaims = false) (source : String) :
    (evaluate source root k).1 = (evaluate source root h).1 ∧
      ∃ B : Set ScopeId, root ∈ B ∧
        Alike B (GeoScript.evaluate source root h).2 (GeoScript.evaluate source root k).2 := by
  cases hp : parse source with
  | error err =>
    rw [GeoScript.evaluate, GeoScript.evaluate, hp]
    exact ⟨rfl, A, hroot, ha⟩
  | ok e =>
    obtain ⟨ho, B, hB, hb⟩ := stable_alike.execute_remember ha hroot callLimit e
    have hfh := footprint_remember callLimit e root h
    have hfk := footprint_remember callLimit e root k
    rw [evaluate_of_parse hp, evaluate_of_parse hp, collect_of_keeping (hfk.reclaims.trans hkeep)]
    refine ⟨by rw [ho], _, .refl, Alike.collect hb (hB hroot) ?_ _⟩
    rw [hfh.held]
    exact hheld

theorem Alike.observe (ha : Alike A h k) (hroot : root ∈ A) (hheld : root ∈ h.held)
    (hkeep : k.reclaims = false) (sources : List String) :
    k.observe root sources = h.observe root sources := by
  induction sources generalizing A h k with
  | nil => rfl
  | cons source rest ih =>
    obtain ⟨ho, B, hB, hb⟩ := ha.evaluate hroot hheld hkeep source
    obtain ⟨hh, -⟩ := held_evaluate source root h
    obtain ⟨-, hk⟩ := held_evaluate source root k
    have hnames : (GeoScript.evaluate source root k).2.resolve root =
        (GeoScript.evaluate source root h).2.resolve root :=
      funext fun name => hb.resolve_eq hB name
    rw [observe_cons, observe_cons, ho, hnames, ih hb hB (by rw [hh]; exact hheld) (hk.trans hkeep)]

/-- A heap with one root is like itself with nothing given back. -/
theorem Rooted.alike_keeping (hr : Rooted root h) : Alike {id | id ∈ h.scopes} h h.keeping where
  next := rfl
  programs := rfl
  draws := rfl
  below := hr.below
  parent id hid := by
    obtain ⟨s, hs⟩ := mem_table_iff.1 hid
    refine ⟨s, hs, ?_⟩
    by_cases hroot : id = root
    · obtain ⟨t, ht, hnil⟩ := hr.top
      rw [hroot, ht] at hs
      obtain rfl := Option.some.inj hs
      exact Or.inl hnil
    · obtain ⟨p, hp, hanc, -⟩ := hr.frame id s hs hroot
      exact Or.inr ⟨p, hp, hanc⟩
  ancestors _ _ := rfl
  values _ _ _ := rfl
  closures id _ name f c hl := hr.mem_of_local? hl

end Heap

/-- **Reclamation cannot be seen.** -/
theorem observe_keeping (libraries : Bool) (draws : Draws) (sources : List String) :
    (Heap.start libraries draws).2.keeping.observe (Heap.start libraries draws).1 sources =
      (Heap.start libraries draws).2.observe (Heap.start libraries draws).1 sources := by
  have hr := rooted_start libraries draws
  have hheld : 0 ∈ (Heap.start libraries draws).2.held := by
    cases libraries with
    | false => exact List.mem_cons_self
    | true => exact List.mem_cons_self
  rw [start_fst]
  exact hr.alike_keeping.observe hr.mem_root hheld rfl sources

end GeoScript
