import GeoScript.Proofs.Transparency

/-!
# Scopes as an environment

**The reference.** A history is what has been done to scopes, one thing after the other: roots and
children are made, values are stored, and what a name stands for in one scope is stored in another.
It is typed by how many scopes it has made, so it cannot speak of a scope that is not there yet. A
history says by itself what a name stands for: of the scopes on the chain the first that has the
name stored in it decides, by what was stored there last (`History.lookup`). Of slots it knows
nothing.

**Theorem (`resolve_history`).** A heap that has been through a history resolves every name from
every scope to the value that the history says, closures with their parameters, body and captured
scope. The names that a scope itself holds are those stored in it, and no scope refers to itself.

**The relation.** A heap is true to a history when it has the same chains and the same value under
every name in every scope, whatever the slots are (`TrueTo`). Each step keeps this, because a slot
gives back the value it was made for in the scope that it was made in.
-/

namespace GeoScript

/-! ## Histories -/

/-- What has been done to scopes, by the number of scopes made. -/
inductive History : Nat → Type where
  | start : History 0
  | root {n : Nat} (past : History n) : History (n + 1)
  | child {n : Nat} (past : History n) (parent : Fin n) : History (n + 1)
  | store {n : Nat} (past : History n) (scope : Fin n) (name : String) (value : Value) : History n
  /-- Stores what a name stands for in one scope under a name in another, if it stands for
  anything. -/
  | copy {n : Nat} (past : History n) (source : Fin n) (name : String) (target : Fin n)
      (other : String) : History n

/-- What was stored in which scope under which name, newest first. -/
abbrev Record := List ((ScopeId × String) × Value)

namespace Record

variable {r : Record} {i : ScopeId} {name : String} {v : Value}

/-- Something was stored in the scope under the name. -/
def Binds (r : Record) (i : ScopeId) (name : String) : Prop := ∃ v, ((i, name), v) ∈ r

/-- The value was stored in the scope under the name, and nothing after it. -/
def Latest (r : Record) (i : ScopeId) (name : String) (v : Value) : Prop :=
  ∃ newer older, r = newer ++ ((i, name), v) :: older ∧ ¬ Binds newer i name

/-- What a name stands for seen along a chain of scopes. -/
def nearest (r : Record) (chain : List ScopeId) (name : String) : Option Value :=
  chain.findSome? fun i => r.lookup (i, name)

theorem lookup_eq_none_iff : r.lookup (i, name) = none ↔ ¬ r.Binds i name := by
  rw [List.lookup_eq_none_iff]
  constructor
  · intro hne hbinds
    obtain ⟨v, hmem⟩ := hbinds
    exact bne_iff_ne.1 (hne _ hmem) rfl
  · intro hbinds p hmem
    refine bne_iff_ne.2 fun heq => hbinds ⟨p.2, ?_⟩
    rw [heq]
    exact hmem

theorem lookup_eq_some_iff : r.lookup (i, name) = some v ↔ r.Latest i name v := by
  rw [List.lookup_eq_some_iff]
  refine exists_congr fun newer => exists_congr fun older => and_congr_right fun _ => ?_
  rw [← List.lookup_eq_none_iff, lookup_eq_none_iff]

theorem isSome_lookup_iff : (r.lookup (i, name)).isSome ↔ r.Binds i name := by
  rw [Option.isSome_iff_ne_none, ne_eq, lookup_eq_none_iff, not_not]

theorem nearest_eq_none_iff {chain : List ScopeId} :
    r.nearest chain name = none ↔ ∀ i ∈ chain, ¬ r.Binds i name := by
  rw [nearest, List.findSome?_eq_none_iff]
  exact forall₂_congr fun i _ => lookup_eq_none_iff

/-- The nearest scope that has the name decides, by the latest value. -/
theorem nearest_eq_some_iff {chain : List ScopeId} :
    r.nearest chain name = some v ↔ ∃ inner i outer, chain = inner ++ i :: outer ∧
      (∀ j ∈ inner, ¬ r.Binds j name) ∧ r.Latest i name v := by
  rw [nearest, List.findSome?_eq_some_iff]
  refine exists_congr fun inner => exists_congr fun i => exists_congr fun outer =>
    and_congr_right fun _ => ?_
  rw [lookup_eq_some_iff, and_comm]
  exact and_congr_left' (forall₂_congr fun j _ => lookup_eq_none_iff)

end Record

namespace History

/-- A scope and those around it, innermost first. -/
def chain : {n : Nat} → History n → ScopeId → List ScopeId
  | _, start => fun _ => []
  | n + 1, root past => Function.update past.chain n [n]
  | n + 1, child past parent => Function.update past.chain n (n :: past.chain parent)
  | _, store past _ _ _ => past.chain
  | _, copy past _ _ _ _ => past.chain

/-- All that has been stored. -/
def record : {n : Nat} → History n → Record
  | _, start => []
  | _, root past => past.record
  | _, child past _ => past.record
  | _, store past scope name value => ((scope, name), value) :: past.record
  | _, copy past source name target other =>
    match past.record.nearest (past.chain source) name with
    | some value => ((target, other), value) :: past.record
    | none => past.record

/-- The heap after all this. -/
def heap (draws : Draws) : {n : Nat} → History n → Heap
  | _, start => .empty draws
  | _, root past => (past.heap draws).newRoot.2
  | _, child past parent => ((past.heap draws).newChild parent).2
  | _, store past scope name value => (past.heap draws).store scope name value
  | _, copy past source name target other =>
    match (past.heap draws).resolve source name with
    | some value => (past.heap draws).store target other value
    | none => past.heap draws

end History

/-! ## Slots -/

/-- A closure is stored without the scope that it is stored in. -/
theorem Slot.captured?_store (id : ScopeId) (v : Value) :
    (Slot.store id v).captured? ≠ some id := by
  cases v with
  | closure c =>
    by_cases hself : c.scope = id
    · have hown : Slot.store id (.closure c) = own c.lambda := if_pos hself
      rw [hown]
      exact nofun
    · have hvalue : Slot.store id (.closure c) = value (.closure c) := if_neg hself
      rw [hvalue]
      exact fun h => hself (Option.some.inj h)
  | _ => exact nofun

namespace Heap

variable {h : Heap} {i j n : ScopeId} {name : String} {v : Value}

theorem containsLocal_eq (h : Heap) (i : ScopeId) (name : String) :
    h.containsLocal i name = (h.local? name i).isSome := by
  rw [containsLocal, local?, Option.isSome_map]
  cases h.scopes[i]? with
  | none => rfl
  | some s => exact Std.TreeMap.contains_eq_isSome_getElem?

theorem mem_localNames_iff : name ∈ h.localNames i ↔ h.containsLocal i name = true := by
  rw [localNames, containsLocal]
  cases h.scopes[i]? with
  | none => exact iff_of_false List.not_mem_nil Bool.false_ne_true
  | some s => exact Std.TreeMap.mem_keys.trans Std.TreeMap.mem_iff_contains

/-- The names come in order, each once. -/
theorem localNames_sorted (h : Heap) (i : ScopeId) : (h.localNames i).Pairwise (· < ·) := by
  rw [localNames]
  cases h.scopes[i]? with
  | none => exact .nil
  | some s => exact s.bindings.ordered_keys.imp fun hlt => compareOfLessAndEq_eq_lt.1 hlt

/-- The scopes captured by the closures that a scope binds. -/
def capturesOf (h : Heap) (i : ScopeId) : List ScopeId :=
  (h.scopes[i]?.map Scope.captures).getD []

theorem mem_capturesOf_iff {c : ScopeId} : c ∈ h.capturesOf i ↔
    ∃ name slot, h.slot? i name = some slot ∧ slot.captured? = some c := by
  rw [capturesOf]
  simp only [slot?]
  cases h.scopes[i]? with
  | none => simp
  | some s => exact Scope.mem_captures

/-! ## Heaps that are true to what was done -/

/-- The heap has so many scopes, with these chains, and under every name the value that was stored
last. No closure is bound with the scope that it is bound in. -/
structure TrueTo (n : Nat) (chain : ScopeId → List ScopeId) (r : Record) (h : Heap) : Prop where
  next : h.next = n
  reclaims : h.reclaims = true
  made : ∀ i, i ∈ h.scopes ↔ i < n
  chain : ∀ i < n, h.chain i = chain i
  values : ∀ i name, h.local? name i = r.lookup (i, name)
  apart : ∀ i name slot, h.slot? i name = some slot → slot.captured? ≠ some i

namespace TrueTo

variable {chain : ScopeId → List ScopeId} {r : Record}

theorem empty (draws : Draws) : TrueTo 0 (fun _ => []) [] (.empty draws) where
  next := rfl
  reclaims := rfl
  made i := iff_of_false Std.TreeMap.not_mem_emptyc (Nat.not_lt_zero i)
  chain i hi := absurd hi (Nat.not_lt_zero i)
  values i name := by simp [local?, Heap.empty]
  apart i name slot hs := by simp [slot?, Heap.empty] at hs

/-- A new scope has the next number, and nothing is stored in it. -/
theorem add (ht : TrueTo n chain r h) (outer : List ScopeId) :
    TrueTo (n + 1) (Function.update chain n (n :: outer)) r (h.add outer).2 := by
  obtain rfl := ht.next
  have hself := scopes_add_self h outer
  have hne : ∀ {i}, i ≠ h.next → (h.add outer).2.scopes[i]? = h.scopes[i]? := scopes_add_ne
  refine ⟨rfl, ht.reclaims, fun i => ?_, fun i hi => ?_, fun i name => ?_, fun i name slot hs => ?_⟩
  · by_cases hi : i = h.next
    · subst hi
      exact iff_of_true (mem_table_iff.2 ⟨_, hself⟩) (Nat.lt_succ_self _)
    · rw [mem_table_iff, hne hi, ← mem_table_iff, ht.made, Nat.lt_succ_iff_lt_or_eq, or_iff_left hi]
  · by_cases hnew : i = h.next
    · subst hnew
      rw [Heap.chain, hself, Function.update_self]
      rfl
    · rw [Function.update_of_ne hnew, ← ht.chain i (by omega)]
      exact chain_congr (by rw [hne hnew])
  · by_cases hi : i = h.next
    · subst hi
      have habsent : h.scopes[h.next]? = none :=
        Std.TreeMap.getElem?_eq_none fun hmem => Nat.lt_irrefl _ ((ht.made _).1 hmem)
      rw [← ht.values, local?, local?, hself, habsent]
      simp
    · rw [local?_congr (hne hi), ht.values]
  · by_cases hi : i = h.next
    · subst hi
      rw [slot?, hself] at hs
      simp at hs
    · rw [slot?_congr (hne hi)] at hs
      exact ht.apart i name slot hs

/-- What is stored is the latest value of the name in that scope, and of nothing else. -/
theorem store (ht : TrueTo n chain r h) {s : ScopeId} (hs : s < n) (name : String) (v : Value) :
    TrueTo n chain (((s, name), v) :: r) (h.store s name v) := by
  have hmem : s ∈ h.scopes := (ht.made s).2 hs
  refine ⟨ht.next, ht.reclaims, fun i => mem_scopes_store.trans (ht.made i), fun i hi => ?_,
    fun i other => ?_, fun i other slot hslot => ?_⟩
  · rw [chain_congr ancestors_store, ht.chain i hi]
  all_goals by_cases hsame : (i, other) = (s, name)
  · obtain ⟨rfl, rfl⟩ := Prod.mk.inj hsame
    rw [local?_store_self hmem, List.lookup_cons_self]
  · have hother : i = s → other ≠ name := fun his hname => hsame (Prod.ext his hname)
    rw [local?_store_ne hother, ht.values, List.lookup_cons, beq_false_of_ne hsame]
  · obtain ⟨rfl, rfl⟩ := Prod.mk.inj hsame
    obtain ⟨t, hscope⟩ := mem_table_iff.1 hmem
    rw [slot?_store_self hscope] at hslot
    obtain rfl := Option.some.inj hslot
    rw [slotFor, if_pos ht.reclaims]
    exact Slot.captured?_store i v
  · have hother : i = s → other ≠ name := fun his hname => hsame (Prod.ext his hname)
    rw [slot?_store_other hother] at hslot
    exact ht.apart i other slot hslot

/-- So names stand for the same, seen from every scope. -/
theorem resolve_eq (ht : TrueTo n chain r h) (hi : i < n) (name : String) :
    h.resolve i name = r.nearest (chain i) name := by
  rw [resolve, ht.chain i hi, Record.nearest]
  exact congrArg (fun f => (chain i).findSome? f) (funext fun j => ht.values j name)

theorem containsLocal_iff (ht : TrueTo n chain r h) :
    h.containsLocal i name = true ↔ r.Binds i name := by
  rw [containsLocal_eq, ht.values, Record.isSome_lookup_iff]

theorem not_mem_capturesOf (ht : TrueTo n chain r h) : i ∉ h.capturesOf i := by
  intro hmem
  obtain ⟨name, slot, hslot, hcap⟩ := mem_capturesOf_iff.1 hmem
  exact ht.apart i name slot hslot hcap

end TrueTo

end Heap

/-! ## The theorem -/

/-- A heap is true to the history that it has been through. -/
theorem History.trueTo (draws : Draws) {n : Nat} (hist : History n) :
    Heap.TrueTo n hist.chain hist.record (hist.heap draws) := by
  induction hist with
  | start => exact .empty draws
  | root past ih => exact ih.add []
  | @child n past parent ih =>
    rw [heap, Heap.newChild, ih.chain parent parent.isLt]
    exact ih.add _
  | store past scope name value ih => exact ih.store scope.isLt name value
  | copy past source name target other ih =>
    rw [heap, record, ih.resolve_eq source.isLt name]
    cases past.record.nearest (past.chain source) name with
    | none => exact ih
    | some value => exact ih.store target.isLt other value

/-- **Scopes are an environment.** A name stands for the value stored last under it in the nearest
scope of the chain that has it, and for nothing if none has. A scope tells what was stored in it,
and none of its closures leads back to it. -/
theorem resolve_history (draws : Draws) {n : Nat} (hist : History n) (i : Fin n) (name : String) :
    let h := hist.heap draws
    h.next = n ∧
    (∀ v, h.resolve i name = some v ↔ ∃ inner j outer, hist.chain i = inner ++ j :: outer ∧
      (∀ k ∈ inner, ¬ hist.record.Binds k name) ∧ hist.record.Latest j name v) ∧
    (h.resolve i name = none ↔ ∀ j ∈ hist.chain i, ¬ hist.record.Binds j name) ∧
    (h.containsLocal i name = true ↔ hist.record.Binds i name) ∧
    (name ∈ h.localNames i ↔ hist.record.Binds i name) ∧
    (h.localNames i).Pairwise (· < ·) ∧
    (i : ScopeId) ∉ h.capturesOf i := by
  intro h
  have ht : Heap.TrueTo n hist.chain hist.record h := hist.trueTo draws
  refine ⟨ht.next, fun v => ?_, ?_, ht.containsLocal_iff, ?_, h.localNames_sorted i,
    ht.not_mem_capturesOf⟩
  · rw [ht.resolve_eq i.isLt]
    exact Record.nearest_eq_some_iff
  · rw [ht.resolve_eq i.isLt]
    exact Record.nearest_eq_none_iff
  · exact Heap.mem_localNames_iff.trans ht.containsLocal_iff

/-- A function declared in a call, shadowed in a child of it, and read there under the name that it
was copied to. -/
example :
    let f : Closure := ⟨⟨["x"], .ident "x" .start, ⟨0, .start⟩⟩, 1⟩
    let declared := (History.start.root.child 0).store 1 "f" (.closure f)
    let hist := ((declared.child 1).copy 2 "f" 2 "g").store 2 "f" .unit
    (hist.heap 0).slot? 1 "f" = some (.own f.lambda) ∧
      (hist.heap 0).resolve 2 "f" = some .unit ∧
      (hist.heap 0).resolve 2 "g" = some (.closure f) ∧
      (hist.heap 0).resolve 0 "f" = none :=
  ⟨rfl, rfl, rfl, rfl⟩

end GeoScript
