import GeoScript.Proofs.Interpretation
import GeoScript.Proofs.Numbering

/-!
# Scopes with later numbers

**Two heaps.** A call may find more scopes in a heap than were there at some earlier time, made in
between and of no concern to it. The scopes it makes itself then have later numbers: all numbers from
`base` on are moved by `offset` (`shift`), and the numbers in between are taken by scopes that
nothing refers to (`Heap.Shifted`).

**What numbers are used for.** They tell closures apart, which moving them does not change, and they
tell whether a frame is the newest scope when it is given back. The scopes in between are older than
any frame of the call, so that this does not change either.

**Theorem (`Heap.Shifted.callAt`).** A call ends alike in both heaps: in the same result but for the
numbers in closures, or with the same error.
-/

namespace GeoScript

/-! ## Numbers -/

/-- The number of a scope when the numbers from `base` on come later by `offset`. -/
def shift (base offset id : Nat) : Nat := if id < base then id else id + offset

section

variable {base offset i j : Nat}

theorem shift_of_lt (hi : i < base) : shift base offset i = i := if_pos hi

theorem shift_of_le (hi : base ≤ i) : shift base offset i = i + offset := if_neg (Nat.not_lt.2 hi)

theorem shift_le_shift_iff : shift base offset i ≤ shift base offset j ↔ i ≤ j := by
  unfold shift
  split_ifs <;> omega

theorem shift_injective : Function.Injective (shift base offset) := by
  intro i j h
  exact Nat.le_antisymm (shift_le_shift_iff.1 (Nat.le_of_eq h))
    (shift_le_shift_iff.1 (Nat.le_of_eq h.symm))

end

/-- The closure, made in the scope with the later number. -/
def Closure.moved (base offset : Nat) (c : Closure) : Closure := ⟨c.lambda, shift base offset c.scope⟩

def Value.moved (base offset : Nat) : Value → Value
  | .closure c => .closure (c.moved base offset)
  | v => v

section

variable {base offset : Nat} {v : Value}

theorem Value.moved_of_plain (hv : v.isClosure = false) : v.moved base offset = v := by
  cases v with
  | closure => cases hv
  | _ => rfl

theorem Value.moved_of_below (hv : v.Below base) : v.moved base offset = v := by
  cases v with
  | closure c =>
    rw [Value.moved, Closure.moved, shift_of_lt hv]
  | _ => rfl

@[simp] theorem Value.blank_moved : (v.moved base offset).blank = v.blank := by
  cases v <;> rfl

theorem Closure.beq_moved (c d : Closure) :
    (c.moved base offset == d.moved base offset) = (c == d) := by
  show ((c.lambda.origin, shift base offset c.scope) == (d.lambda.origin, shift base offset d.scope)) =
    ((c.lambda.origin, c.scope) == (d.lambda.origin, d.scope))
  rw [Bool.eq_iff_iff, beq_iff_eq, beq_iff_eq, Prod.mk.injEq, Prod.mk.injEq,
    shift_injective.eq_iff]

end

/-! ## Heaps -/

namespace Heap

/-- The second heap is the first with numbers moved, and with any scopes at the numbers in between. -/
structure Shifted (base offset : Nat) (h k : Heap) : Prop where
  next : k.next = h.next + offset
  base_le : base ≤ h.next
  draws : k.draws = h.draws
  reclaims : k.reclaims = h.reclaims
  ancestors (id : ScopeId) : k.scopes[shift base offset id]?.map Scope.ancestors =
    (h.scopes[id]?.map Scope.ancestors).map (List.map (shift base offset))
  values (id : ScopeId) (name : String) : k.local? name (shift base offset id) =
    (h.local? name id).map (Value.moved base offset)
  between : ∀ id ∈ k.scopes, (∃ j ∈ h.scopes, id = shift base offset j) ∨ id < base + offset

/-- A heap beside a later one that keeps all its scopes. -/
theorem Numbered.shifted {h k : Heap} (hn : h.Numbered) (hn' : k.Numbered) (hk : Keeps h k)
    (hdraws : k.draws = h.draws) : ∃ offset, Shifted h.next offset h k := by
  obtain ⟨offset, hnext⟩ := Nat.exists_eq_add_of_le hk.next_le
  have hnone : ∀ {id}, h.next ≤ id → h.scopes[id]? = none ∧
      k.scopes[shift h.next offset id]? = none := by
    intro id hid
    refine ⟨hn.none_of_le hid, hn'.none_of_le ?_⟩
    rw [shift_of_le hid, hnext]
    exact Nat.add_le_add_right hid offset
  refine ⟨offset, hnext, Nat.le_refl _, hdraws, hk.reclaims, fun id => ?_, fun id name => ?_, ?_⟩
  · by_cases hid : id < h.next
    · rw [shift_of_lt hid, hk.scopes id hid]
      cases hs : h.scopes[id]? with
      | none => rfl
      | some s =>
        have hsame : s.ancestors.map (shift h.next offset) = s.ancestors :=
          (List.map_congr_left fun a ha => shift_of_lt (hn.ancestors id s hs a ha)).trans
            (List.map_id _)
        rw [Option.map_some, Option.map_some, hsame]
    · obtain ⟨hh, hk'⟩ := hnone (Nat.not_lt.1 hid)
      rw [hh, hk']
      rfl
  · by_cases hid : id < h.next
    · rw [shift_of_lt hid, local?_congr (hk.scopes id hid)]
      cases hv : h.local? name id with
      | none => rfl
      | some v => rw [Option.map_some, Value.moved_of_below (hn.values id name v hv)]
    · obtain ⟨hh, hk'⟩ := hnone (Nat.not_lt.1 hid)
      rw [Heap.local?, Heap.local?, hh, hk']
      rfl
  · intro id hid
    by_cases hlt : id < h.next
    · refine Or.inl ⟨id, ?_, (shift_of_lt hlt).symm⟩
      rw [Std.TreeMap.mem_iff_isSome_getElem?, ← hk.scopes id hlt,
        ← Std.TreeMap.mem_iff_isSome_getElem?]
      exact hid
    · exact Or.inr (hnext ▸ hn'.below id hid)

namespace Shifted

variable {base offset : Nat} {h k : Heap} {id : ScopeId} {name : String} {v : Value}

theorem next_eq (hs : Shifted base offset h k) : k.next = shift base offset h.next := by
  rw [hs.next, shift_of_le hs.base_le]

theorem chain_eq (hs : Shifted base offset h k) (id : ScopeId) :
    k.chain (shift base offset id) = (h.chain id).map (shift base offset) := by
  rw [chain, chain, hs.ancestors, List.map_cons]
  cases h.scopes[id]? <;> rfl

theorem mem_iff_of_ancestors {i j : ScopeId} {f : List ScopeId → List ScopeId}
    (hij : k.scopes[j]?.map Scope.ancestors = (h.scopes[i]?.map Scope.ancestors).map f) :
    j ∈ k.scopes ↔ i ∈ h.scopes := by
  rw [Std.TreeMap.mem_iff_isSome_getElem?, Std.TreeMap.mem_iff_isSome_getElem?,
    ← Option.isSome_map (f := Scope.ancestors), hij, Option.isSome_map, Option.isSome_map]

theorem mem_iff (hs : Shifted base offset h k) :
    shift base offset id ∈ k.scopes ↔ id ∈ h.scopes :=
  mem_iff_of_ancestors (hs.ancestors id)

/-- A scope made since `base` is the newest in both heaps or in none. -/
theorem maxKey?_iff (hs : Shifted base offset h k) (hid : base ≤ id) :
    k.scopes.maxKey? = some (shift base offset id) ↔ h.scopes.maxKey? = some id := by
  rw [Std.TreeMap.maxKey?_eq_some_iff_mem_and_forall,
    Std.TreeMap.maxKey?_eq_some_iff_mem_and_forall, hs.mem_iff]
  apply and_congr_right
  intro _
  simp only [Nat.isLE_compare]
  constructor
  · intro hmax j hj
    exact shift_le_shift_iff.1 (hmax _ (hs.mem_iff.2 hj))
  · intro hmax j hj
    rcases hs.between j hj with ⟨j', hj', rfl⟩ | hlt
    · exact shift_le_shift_iff.2 (hmax j' hj')
    · rw [shift_of_le hid]
      exact Nat.le_of_lt (Nat.lt_of_lt_of_le hlt (Nat.add_le_add_right hid offset))

theorem resolve (hs : Shifted base offset h k) (id : ScopeId) (name : String) :
    k.resolve (shift base offset id) name = (h.resolve id name).map (Value.moved base offset) := by
  rw [Heap.resolve, Heap.resolve, hs.chain_eq]
  induction h.chain id with
  | nil => rfl
  | cons a l ih =>
    rw [List.map_cons, List.findSome?_cons, List.findSome?_cons, hs.values a name]
    cases h.local? name a with
    | none => exact ih
    | some v => rfl

theorem random (hs : Shifted base offset h k) :
    Shifted base offset h.random.2 k.random.2 := by
  have hdraws := (random_congr hs.draws).2
  obtain ⟨draws, hh⟩ := random_eq h
  obtain ⟨draws', hk⟩ := random_eq k
  rw [hh, hk] at hdraws ⊢
  exact ⟨hs.next, hs.base_le, hdraws, hs.reclaims, hs.ancestors, hs.values, hs.between⟩

/-- Steps change one scope at most. Nothing but that scope has to be looked at. -/
theorem of_scopes {h' k' : Heap} (hs : Shifted base offset h k) (id : ScopeId)
    (hnext : k'.next = h'.next + offset) (hbase : base ≤ h'.next) (hdraws : k'.draws = h'.draws)
    (hreclaims : k'.reclaims = h'.reclaims)
    (hh : ∀ {i}, i ≠ id → h'.scopes[i]? = h.scopes[i]?)
    (hk : ∀ {i}, i ≠ shift base offset id → k'.scopes[i]? = k.scopes[i]?)
    (hancestors : k'.scopes[shift base offset id]?.map Scope.ancestors =
      (h'.scopes[id]?.map Scope.ancestors).map (List.map (shift base offset)))
    (hvalues : ∀ name, k'.local? name (shift base offset id) =
      (h'.local? name id).map (Value.moved base offset)) : Shifted base offset h' k' := by
  have hne : ∀ {i}, i ≠ id → shift base offset i ≠ shift base offset id :=
    fun hi heq => hi (shift_injective heq)
  have hall : ∀ i : ScopeId, k'.scopes[shift base offset i]?.map Scope.ancestors =
      (h'.scopes[i]?.map Scope.ancestors).map (List.map (shift base offset)) := by
    intro i
    by_cases hi : i = id
    · rw [hi, hancestors]
    · rw [hh hi, hk (hne hi), hs.ancestors]
  refine ⟨hnext, hbase, hdraws, hreclaims, hall, fun i name => ?_, fun i hi => ?_⟩
  · by_cases hid : i = id
    · rw [hid, hvalues]
    · rw [local?_congr (hh hid), local?_congr (hk (hne hid)), hs.values]
  · have hmem : ∀ {j}, i = shift base offset j → j ∈ h'.scopes := by
      intro j heq
      rw [heq] at hi
      exact (mem_iff_of_ancestors (hall j)).1 hi
    by_cases hid : i = shift base offset id
    · exact Or.inl ⟨id, hmem hid, hid⟩
    · obtain ⟨s, hget⟩ := mem_table_iff.1 hi
      rw [hk hid] at hget
      rcases hs.between i (mem_table_iff.2 ⟨s, hget⟩) with ⟨j, -, heq⟩ | hlt
      · exact Or.inl ⟨j, hmem heq, heq⟩
      · exact Or.inr hlt

theorem store (hs : Shifted base offset h k) (id : ScopeId) (name : String) (v : Value) :
    Shifted base offset (h.store id name v)
      (k.store (shift base offset id) name (v.moved base offset)) := by
  refine hs.of_scopes id hs.next hs.base_le hs.draws hs.reclaims scopes_store_ne
    scopes_store_ne ?_ ?_
  · rw [ancestors_store, ancestors_store, hs.ancestors]
  intro other
  by_cases ho : other = name
  · rw [ho]
    by_cases hi : id ∈ h.scopes
    · rw [local?_store_self hi, local?_store_self (hs.mem_iff.2 hi)]
      rfl
    · -- There is no such scope in either heap.
      have hnone : ∀ {g : Heap} {j : ScopeId} {u : Value}, j ∉ g.scopes →
          (g.store j name u).local? name j = none := by
        intro g j u hg
        rw [Heap.local?, scopes_store_self, Std.TreeMap.getElem?_eq_none hg]
        rfl
      rw [hnone hi, hnone fun hk => hi (hs.mem_iff.1 hk)]
      rfl
  · rw [local?_store_ne fun _ h => ho h, local?_store_ne fun _ h => ho h, hs.values]

theorem bindAll (hs : Shifted base offset h k) (id : ScopeId) (bs : List (String × Value)) :
    Shifted base offset (h.bindAll id bs)
      (k.bindAll (shift base offset id) (bs.map fun b => (b.1, b.2.moved base offset))) := by
  induction bs generalizing h k with
  | nil => exact hs
  | cons b bs ih => exact ih (hs.store id b.1 b.2)

theorem newChild (hs : Shifted base offset h k) (p : ScopeId) :
    Shifted base offset (h.newChild p).2 (k.newChild (shift base offset p)).2 := by
  have hself : (k.newChild (shift base offset p)).2.scopes[shift base offset h.next]? =
      some ⟨∅, (h.chain p).map (shift base offset)⟩ := by
    rw [← hs.next_eq, scopes_newChild_self, hs.chain_eq]
  refine hs.of_scopes h.next ?_ (Nat.le_succ_of_le hs.base_le) hs.draws hs.reclaims
    scopes_newChild_ne ?_ ?_ ?_
  · show k.next + 1 = h.next + 1 + offset
    rw [hs.next, Nat.add_right_comm]
  · rw [← hs.next_eq]
    exact scopes_newChild_ne
  · rw [hself, scopes_newChild_self]
    rfl
  · intro name
    rw [Alike.local?_newChild, Heap.local?, hself]
    simp

theorem enter (hs : Shifted base offset h k) (c : Closure) (vs : List Value) :
    Shifted base offset (h.enter c vs).2
      (k.enter (c.moved base offset) (vs.map (Value.moved base offset))).2 := by
  have hzip : c.lambda.params.zip (vs.map (Value.moved base offset)) =
      (c.lambda.params.zip vs).map fun b => (b.1, b.2.moved base offset) := by
    rw [List.zip_map_right]
    rfl
  rw [enter_eq, enter_eq, hs.next_eq]
  show Shifted base offset _ (Heap.bindAll _ (c.lambda.params.zip _) _)
  rw [hzip]
  exact (hs.newChild c.scope).bindAll h.next _

theorem release (hs : Shifted base offset h k) {frame : ScopeId} (hframe : base ≤ frame) :
    Shifted base offset (h.release frame) (k.release (shift base offset frame)) := by
  have hrel : ∀ (g : Heap) (frame : ScopeId),
      g.release frame = { g with scopes := (g.release frame).scopes } :=
    fun g frame => leave_eq frame (.ok .unit) g
  have hmax : (k.scopes.maxKey? == some (shift base offset frame)) =
      (h.scopes.maxKey? == some frame) := by
    rw [Bool.eq_iff_iff, beq_iff_eq, beq_iff_eq, hs.maxKey?_iff hframe]
  have hself := scopes_release_self h frame
  have hself' := scopes_release_self k (shift base offset frame)
  rw [hs.reclaims, hmax] at hself'
  have hancestors : (k.release (shift base offset frame)).scopes[shift base offset frame]?.map
      Scope.ancestors =
        ((h.release frame).scopes[frame]?.map Scope.ancestors).map (List.map (shift base offset)) := by
    have hcleared : Scope.ancestors ∘ Scope.cleared = Scope.ancestors := rfl
    rw [hself, hself']
    split_ifs
    · rfl
    · rw [Option.map_map, hcleared, hs.ancestors, Option.map_map _ Scope.cleared, hcleared]
    · exact hs.ancestors frame
  have hvalues : ∀ name : String,
      (k.release (shift base offset frame)).local? name (shift base offset frame) =
        ((h.release frame).local? name frame).map (Value.moved base offset) := by
    intro name
    split_ifs at hself hself'
    · rw [Heap.local?, Heap.local?, hself, hself']
      rfl
    · rw [local?_of_cleared hself, local?_of_cleared hself']
      rfl
    · rw [local?_congr hself, local?_congr hself', hs.values]
  have hh : ∀ {i}, i ≠ frame → (h.release frame).scopes[i]? = h.scopes[i]? := scopes_release_ne
  have hk : ∀ {i}, i ≠ shift base offset frame →
      (k.release (shift base offset frame)).scopes[i]? = k.scopes[i]? := scopes_release_ne
  rw [hrel h, hrel k]
  exact hs.of_scopes frame hs.next hs.base_le hs.draws hs.reclaims hh hk hancestors hvalues

end Shifted

end Heap

/-! ## Calls -/

open Heap Correspondence

/-- Heaps with numbers moved, and the same errors. -/
def shifted (base offset : Nat) : Correspondence Heap Heap where
  World := Unit
  Le _ _ := True
  trans _ _ := trivial
  Ran _ _ := True
  ran_refl _ := trivial
  ran_trans _ _ := trivial
  le_of_ran _ := trivial
  Holds _ := Shifted base offset
  Closures _ c c' := c' = c.moved base offset
  mono _ hc := hc
  beq hc hd := by rw [hc, hd, Closure.beq_moved]
  Lines l l' := l' = l
  Cut _ := False
  strict := False

section

variable {base offset : Nat} {w : (shifted base offset).World} {v v' : Value}

theorem values_shifted : (shifted base offset).Values w v v' ↔ v' = v.moved base offset := by
  constructor
  · intro hv
    cases hv with
    | closure hc => exact congrArg Value.closure hc
    | plain hplain => exact (Value.moved_of_plain hplain).symm
  · rintro rfl
    cases v with
    | closure c => exact .closure rfl
    | _ => exact .plain rfl fun hs => hs.elim

theorem allValues_shifted {vs vs' : List Value} :
    (shifted base offset).AllValues w vs vs' ↔ vs' = vs.map (Value.moved base offset) := by
  constructor
  · intro hv
    induction hv with
    | nil => rfl
    | cons hvv _ ih => rw [values_shifted.1 hvv, ih, List.map_cons]
  · rintro rfl
    exact List.forall₂_map_right_iff.2 (List.forall₂_same.2 fun v _ => values_shifted.2 rfl)

/-- Calls end alike, when so many more may be nested. -/
def CallsShifted (base offset limit allowed : Nat) : Prop :=
  ∀ (w : (shifted base offset).World) (c : Closure) (vs : List Value) (line : Nat),
    (shifted base offset).Together w (shifted base offset).Values (callAt limit allowed c vs line)
      (callAt limit allowed (c.moved base offset) (vs.map (Value.moved base offset)) line)

variable {limit allowed : Nat}

theorem serves_shifted (hcalls : CallsShifted base offset limit allowed) (program : Nat)
    (scope : ScopeId) :
    (shifted base offset).Serves w .any id (Context.machine ⟨callAt limit allowed, program, scope⟩)
      (Context.machine ⟨callAt limit allowed, program, shift base offset scope⟩) where
  lines _ := rfl
  hollow hs := hs.elim
  resolve := by
    rintro name _ line - rfl w₁ - h k hs
    show (shifted base offset).Ends w₁ _ (Effect.runOn (Context.resolve _ name line) h)
      (Effect.runOn (Context.resolve _ name line) k)
    rw [Context.runOn_resolve, Context.runOn_resolve]
    dsimp only
    rw [Shifted.resolve hs scope name]
    cases h.resolve scope name with
    | some v => exact .ok ((shifted base offset).ran_refl w₁) hs (values_shifted.2 rfl)
    | none => exact .error ((shifted base offset).ran_refl w₁) hs rfl rfl
  declare := by
    intro w₁ v v' name _ hv w₂ _ h k hs
    show (shifted base offset).Ends w₂ _ (Effect.runOn (Context.declare _ name v) h)
      (Effect.runOn (Context.declare _ name v') k)
    rw [Context.runOn_declare, Context.runOn_declare, values_shifted.1 hv]
    exact .ok ((shifted base offset).ran_refl w₂) (Shifted.store hs scope name v)
      (values_shifted.2 rfl)
  close := by
    intro body p params _ _
    rw [Expr.placed_id]
    rfl
  invoke := by
    rintro w₁ c _ vs vs' _ line - rfl hvs rfl
    rw [allValues_shifted.1 hvs]
    exact hcalls w₁ c vs line
  random := by
    intro w₁ _ h k hs
    show (shifted base offset).Ends w₁ _ (Effect.runOn (Effect.change Heap.random) h)
      (Effect.runOn (Effect.change Heap.random) k)
    rw [Effect.runOn_change, Effect.runOn_change]
    exact .ok ((shifted base offset).ran_refl w₁) (Shifted.random hs)
      ⟨(random_congr (Shifted.draws hs)).1, trivial⟩
  watch _ hm := hm
  watchCall _ _ hm := hm

/-- The body of a closure beside itself in the frame with the later number. -/
theorem together_body_shifted (hcalls : CallsShifted base offset limit allowed) (c : Closure)
    (frame : ScopeId) :
    (shifted base offset).Together w (shifted base offset).Values
      (c.lambda.body.eval ⟨callAt limit allowed, c.lambda.origin.program, frame⟩)
      ((c.moved base offset).lambda.body.eval ⟨callAt limit allowed,
        (c.moved base offset).lambda.origin.program, shift base offset frame⟩) := by
  have hbody := (serves_shifted hcalls c.lambda.origin.program frame).together_interpret
    c.lambda.body w (Expr.meets_any _)
  rw [Expr.placed_id, interpret_machine, interpret_machine] at hbody
  exact hbody

/-- **Calls end alike** on heaps with numbers moved. The induction is on how many more may be
nested. -/
theorem callsShifted (base offset limit allowed : Nat) :
    CallsShifted base offset limit allowed := by
  induction allowed with
  | zero =>
    intro w c vs line w₁ _ h k hs
    rw [runOn_callAt_zero, runOn_callAt_zero]
    exact .error ((shifted base offset).ran_refl w₁) hs rfl rfl
  | succ allowed ih =>
    intro w c vs line w₁ _ h k hs
    have hframe := Shifted.base_le hs
    have hends := together_body_shifted (w := w₁) ih c h.next w₁ trivial _ _ (Shifted.enter hs c vs)
    rw [runOn_callAt_succ, runOn_callAt_succ, Shifted.next_eq hs]
    dsimp only
    generalize Effect.runOn _ (h.enter c vs).2 = r at hends ⊢
    generalize Effect.runOn _ (k.enter _ _).2 = r' at hends ⊢
    cases hends with
    | ok _ hs' hv =>
      refine .ok ((shifted base offset).ran_refl w₁) ?_ hv
      cases hv with
      | closure =>
        rw [leave_closure, leave_closure]
        exact hs'
      | plain hplain =>
        rw [leave_of_not_closure (by rintro c ⟨⟩; cases hplain),
          leave_of_not_closure (by rintro c ⟨⟩; cases hplain)]
        exact Shifted.release hs' hframe
    | error _ hs' hfault hline =>
      exact .error ((shifted base offset).ran_refl w₁) (Shifted.release hs' hframe) hfault hline
    | cut hcut => exact hcut.elim

end

/-- **A call ends alike** in a heap with numbers moved, with numbers moved in its result. -/
theorem Heap.Shifted.callAt {base offset : Nat} {h k : Heap} (hs : Shifted base offset h k)
    (limit allowed : Nat) (f : Closure) (args : List Value) (line : Nat) :
    let call := callAt limit allowed f args line
    let call' := callAt limit allowed (f.moved base offset)
      (args.map (Value.moved base offset)) line
    (call'.runOn k).1 = (call.runOn h).1.map (Value.moved base offset) ∧
      Shifted base offset (call.runOn h).2 (call'.runOn k).2 := by
  intro call call'
  have hends := callsShifted base offset limit allowed () f args line () trivial h k hs
  change (shifted base offset).Ends () _ (call.runOn h) (call'.runOn k) at hends
  generalize call.runOn h = r at hends ⊢
  generalize call'.runOn k = r' at hends ⊢
  cases hends with
  | ok _ hs' hv => exact ⟨congrArg Except.ok (values_shifted.1 hv), hs'⟩
  | error _ hs' hfault hline => exact ⟨congrArg Except.error (EvalError.ext hfault hline), hs'⟩
  | cut hcut => exact hcut.elim

end GeoScript
