import GeoScript.Proofs.Joining
import GeoScript.Proofs.Recording

/-!
# Closures that go by other names

**Origins.** A closure is known by where its literal stands: the number of a program and a place in
it. When a program is run as part of another, further down, its literals have other origins, and
their bodies other places. Apart from this, and apart from the value of `$?` in the root, nothing
changes (`Heap.Renamed`).

**Earlier and later.** What was there before has the same origin in both runs. A literal of the
program with the number `n + 1` in the first run belongs to the program `n` in the second, below its
line `last` (`Closure.Counterpart`). Since literals with the number `n` that were there before are
not below that line, two closures are equal in the one run if and only if they are in the other.

**Theorem (`renamed_evalSeq`).** Items that do not read `$?` end alike in both runs: with the same
result up to origins and places, or with the same fault.
-/

namespace GeoScript

/-! ## Programs that do not read `$?` -/

/-- Anything but reading `$?`, with function literals in the given places. -/
def Terms.forgetful (literal : Position → Prop) : Terms := ⟨(· ≠ lastResult), literal, True⟩

/-- The program never reads `$?`, not even in the body of a function. -/
def Expr.Forgetful (e : Expr) : Prop := e.Meets (.forgetful fun _ => True)

instance (e : Expr) : Decidable e.Forgetful :=
  @Expr.decideMeets (.forgetful fun _ => True) (inferInstanceAs (DecidablePred (· ≠ lastResult)))
    (inferInstanceAs (DecidablePred fun _ => True)) (inferInstanceAs (Decidable True)) e

/-- The literals of programs up to `n`, those of `n` itself no further down than the line `last`. -/
def Terms.earlier (n last program : Nat) : Terms :=
  .forgetful fun p => program < n ∨ program = n ∧ p.upTo last = p

/-! ## Closures and values -/

/-- The closures that belong together. -/
inductive Closure.Counterpart (n last : Nat) : Closure → Closure → Prop
  | earlier {c : Closure} : c.Meets (.earlier n last) → Counterpart n last c c
  | later {params : List String} {body : Expr} {p : Position} {scope : ScopeId} : body.Forgetful →
    Counterpart n last ⟨⟨params, body, ⟨n + 1, p⟩⟩, scope⟩
      ⟨⟨params, body.placed (Position.down (last + 1)), ⟨n, p.down (last + 1)⟩⟩, scope⟩

namespace Closure.Counterpart

variable {n last : Nat} {c c' d d' : Closure}

theorem scope_eq (h : Counterpart n last c c') : c'.scope = c.scope := by
  cases h <;> rfl

theorem params_eq (h : Counterpart n last c c') : c'.lambda.params = c.lambda.params := by
  cases h <;> rfl

/-- A literal that was there before stands above all of the later ones. -/
theorem earlier_ne_later {f : Origin} (hf : (Terms.earlier n last f.program).literal f.position)
    (p : Position) : f ≠ ⟨n + 1, p⟩ ∧ f ≠ ⟨n, p.down (last + 1)⟩ := by
  constructor
  · rintro rfl
    rcases hf with hlt | ⟨heq, -⟩
    · exact absurd hlt (by simp)
    · exact absurd heq (by simp)
  · rintro rfl
    rcases hf with hlt | ⟨-, hplace⟩
    · exact absurd hlt (by simp)
    · have hline : min (p.line + (last + 1)) last = p.line + (last + 1) :=
        congrArg Position.line hplace
      omega

theorem beq (hc : Counterpart n last c c') (hd : Counterpart n last d d') :
    (c' == d') = (c == d) := by
  have hkey : ∀ {a b : Closure}, (a == b) = (a.key == b.key) := rfl
  have hapart : ∀ {o o' : Origin} {s s' : ScopeId}, o ≠ o' → ((o, s) == (o', s')) = false := by
    intro o o' s s' hne
    rw [beq_eq_false_iff_ne]
    exact fun heq => hne (Prod.mk.inj heq).1
  cases hc with
  | earlier hc =>
    cases hd with
    | earlier => rfl
    | @later _ _ p =>
      have hne := earlier_ne_later hc.1 p
      rw [hkey, hkey, Closure.key, Closure.key, Closure.key, hapart hne.1, hapart hne.2]
  | @later _ _ p =>
    cases hd with
    | earlier hd =>
      have hne := earlier_ne_later hd.1 p
      rw [hkey, hkey, Closure.key, Closure.key, Closure.key, hapart hne.1.symm, hapart hne.2.symm]
    | @later _ _ q =>
      rw [hkey, hkey, Bool.eq_iff_iff, beq_iff_eq, beq_iff_eq]
      simp only [Closure.key, Prod.mk.injEq, Origin.mk.injEq, true_and]
      exact and_congr_left fun _ => ⟨Position.down_injective, congrArg _⟩

end Closure.Counterpart

/-- The values that belong together: closures that do, or equal ones. -/
inductive Value.Counterpart (n last : Nat) : Value → Value → Prop
  | closure {c c' : Closure} : c.Counterpart n last c' →
    Counterpart n last (.closure c) (.closure c')
  | plain {v : Value} : v.isClosure = false → Counterpart n last v v

theorem Value.Meets.counterpart {n last : Nat} {v : Value} (hv : v.Meets (Terms.earlier n last)) :
    v.Counterpart n last v := by
  cases v with
  | closure c => exact .closure (.earlier hv)
  | _ => exact .plain rfl

/-! ## Heaps -/

namespace Heap

/-- The second heap is the first with closures renamed, except for what the root binds to `$?`. -/
structure Renamed (root : ScopeId) (n last : Nat) (h k : Heap) : Prop where
  next : k.next = h.next
  held : k.held = h.held
  draws : k.draws = h.draws
  reclaims : k.reclaims = h.reclaims
  ancestors (id : ScopeId) :
    k.scopes[id]?.map Scope.ancestors = h.scopes[id]?.map Scope.ancestors
  values (id : ScopeId) (name : String) : (id = root → name ≠ lastResult) →
    Option.Rel (Value.Counterpart n last) (h.local? name id) (k.local? name id)

namespace Renamed

variable {root : ScopeId} {n last : Nat} {h k : Heap} {id : ScopeId} {name : String} {v v' : Value}

theorem chain_eq (hr : Renamed root n last h k) (id : ScopeId) : k.chain id = h.chain id :=
  chain_congr (hr.ancestors id)

theorem mem_iff (hr : Renamed root n last h k) : id ∈ k.scopes ↔ id ∈ h.scopes := by
  rw [Std.TreeMap.mem_iff_isSome_getElem?, Std.TreeMap.mem_iff_isSome_getElem?,
    ← Option.isSome_map (f := Scope.ancestors), hr.ancestors id, Option.isSome_map]

theorem maxKey?_eq (hr : Renamed root n last h k) : k.scopes.maxKey? = h.scopes.maxKey? := by
  apply Option.ext
  intro id
  rw [Std.TreeMap.maxKey?_eq_some_iff_mem_and_forall,
    Std.TreeMap.maxKey?_eq_some_iff_mem_and_forall]
  simp only [hr.mem_iff]

/-- Names other than `$?` stand for the same. -/
theorem resolve (hr : Renamed root n last h k) (hname : name ≠ lastResult) (id : ScopeId) :
    Option.Rel (Value.Counterpart n last) (h.resolve id name) (k.resolve id name) := by
  rw [Heap.resolve, Heap.resolve, hr.chain_eq]
  induction h.chain id with
  | nil => exact .none
  | cons a l ih =>
    rw [List.findSome?_cons, List.findSome?_cons]
    have hvalue := hr.values a name fun _ => hname
    generalize h.local? name a = x at hvalue ⊢
    generalize k.local? name a = y at hvalue ⊢
    cases hvalue with
    | some hv => exact .some hv
    | none => exact ih

/-- Heaps stay renamed when their scopes stay as they are. -/
theorem of_scopes {h' k' : Heap} (hr : Renamed root n last h k) (hh : h'.scopes = h.scopes)
    (hk : k'.scopes = k.scopes) (hnext : k'.next = h'.next) (hheld : k'.held = h'.held)
    (hdraws : k'.draws = h'.draws) (hreclaims : k'.reclaims = h'.reclaims) :
    Renamed root n last h' k' where
  next := hnext
  held := hheld
  draws := hdraws
  reclaims := hreclaims
  ancestors id := by rw [hk, hh, hr.ancestors id]
  values id name hid := by
    have hh' : h'.local? name id = h.local? name id := local?_congr (by rw [hh])
    have hk' : k'.local? name id = k.local? name id := local?_congr (by rw [hk])
    rw [hh', hk']
    exact hr.values id name hid

theorem random (hr : Renamed root n last h k) : Renamed root n last h.random.2 k.random.2 := by
  have hdraws := (random_congr hr.draws).2
  obtain ⟨draws, hh⟩ := random_eq h
  obtain ⟨draws', hk⟩ := random_eq k
  rw [hh, hk] at hdraws ⊢
  exact hr.of_scopes rfl rfl hr.next hr.held hdraws hr.reclaims

theorem store (hr : Renamed root n last h k) (hv : v.Counterpart n last v') (id : ScopeId)
    (name : String) : Renamed root n last (h.store id name v) (k.store id name v') where
  next := hr.next
  held := hr.held
  draws := hr.draws
  reclaims := hr.reclaims
  ancestors i := by rw [ancestors_store, ancestors_store, hr.ancestors i]
  values i other hother := by
    by_cases hio : i = id ∧ other = name
    · obtain ⟨rfl, rfl⟩ := hio
      by_cases hi : i ∈ h.scopes
      · rw [local?_store_self hi, local?_store_self (hr.mem_iff.2 hi)]
        exact .some hv
      · -- There is no such scope in either heap.
        have hnone : ∀ {g : Heap} {u : Value}, i ∉ g.scopes →
            (g.store i other u).local? other i = none := by
          intro g u hg
          rw [Heap.local?, scopes_store_self, Std.TreeMap.getElem?_eq_none hg]
          rfl
        rw [hnone hi, hnone fun hk => hi (hr.mem_iff.1 hk)]
        exact .none
    · have hne : i = id → other ≠ name := fun hi ho => hio ⟨hi, ho⟩
      rw [local?_store_ne hne, local?_store_ne hne]
      exact hr.values i other hother

theorem bindAll {bs bs' : List (String × Value)} (hr : Renamed root n last h k)
    (hb : List.Forall₂ (fun b b' => b'.1 = b.1 ∧ b.2.Counterpart n last b'.2) bs bs')
    (id : ScopeId) : Renamed root n last (h.bindAll id bs) (k.bindAll id bs') := by
  induction hb generalizing h k with
  | nil => exact hr
  | @cons b b' _ _ hbb _ ih =>
    have hstored : Renamed root n last (h.store id b.1 b.2) (k.store id b'.1 b'.2) := by
      rw [hbb.1]
      exact hr.store hbb.2 id b.1
    exact ih hstored

theorem newChild (hr : Renamed root n last h k) (p : ScopeId) :
    Renamed root n last (h.newChild p).2 (k.newChild p).2 where
  next := congrArg Nat.succ hr.next
  held := hr.held
  draws := hr.draws
  reclaims := hr.reclaims
  ancestors id := by
    by_cases hid : id = h.next
    · have hself : (k.newChild p).2.scopes[h.next]? = some ⟨∅, k.chain p⟩ := by
        rw [← hr.next, scopes_newChild_self]
      rw [hid, hself, scopes_newChild_self, hr.chain_eq]
    · rw [scopes_newChild_ne hid, scopes_newChild_ne (by rwa [hr.next]), hr.ancestors]
  values id name hname := by
    by_cases hid : id = h.next
    · have hself := Alike.local?_newChild k p name
      rw [hr.next] at hself
      rw [hid, hself, Alike.local?_newChild]
      exact .none
    · have hid' : id ≠ k.next := by rwa [hr.next]
      rw [local?_congr (scopes_newChild_ne hid), local?_congr (scopes_newChild_ne hid')]
      exact hr.values id name hname

theorem enter {c c' : Closure} {vs vs' : List Value} (hr : Renamed root n last h k)
    (hc : c.Counterpart n last c') (hv : List.Forall₂ (Value.Counterpart n last) vs vs') :
    Renamed root n last (h.enter c vs).2 (k.enter c' vs').2 := by
  have hzip : ∀ names : List String, List.Forall₂
      (fun b b' : String × Value => b'.1 = b.1 ∧ b.2.Counterpart n last b'.2) (names.zip vs)
      (names.zip vs') := by
    induction hv with
    | nil =>
      intro names
      simp
    | cons hvv _ ih =>
      intro names
      cases names with
      | nil => exact .nil
      | cons name names => exact .cons ⟨rfl, hvv⟩ (ih names)
  rw [enter_eq, enter_eq, hc.scope_eq, hc.params_eq, hr.next]
  exact (hr.newChild c.scope).bindAll (hzip c.lambda.params) h.next

theorem release (hr : Renamed root n last h k) (frame : ScopeId) :
    Renamed root n last (h.release frame) (k.release frame) := by
  have hrel : ∀ g : Heap, g.release frame = { g with scopes := (g.release frame).scopes } :=
    leave_eq frame (.ok .unit)
  rw [hrel h, hrel k]
  refine ⟨hr.next, hr.held, hr.draws, hr.reclaims, fun id => ?_, fun id name hname => ?_⟩
  · show (k.release frame).scopes[id]?.map _ = (h.release frame).scopes[id]?.map _
    by_cases hid : id = frame
    · have hcleared : Scope.ancestors ∘ Scope.cleared = Scope.ancestors := rfl
      rw [hid, scopes_release_self, scopes_release_self, hr.reclaims, hr.maxKey?_eq]
      split_ifs
      · rfl
      · rw [Option.map_map, Option.map_map, hcleared, hr.ancestors]
      · exact hr.ancestors frame
    · rw [scopes_release_ne hid, scopes_release_ne hid, hr.ancestors]
  · show Option.Rel _ ((h.release frame).local? name id) ((k.release frame).local? name id)
    by_cases hid : id = frame
    · subst hid
      have hself := scopes_release_self h id
      have hself' := scopes_release_self k id
      rw [hr.reclaims, hr.maxKey?_eq] at hself'
      split_ifs at hself hself'
      · rw [local?_of_cleared (s := none) hself, local?_of_cleared (s := none) hself']
        exact .none
      · rw [local?_of_cleared hself, local?_of_cleared hself']
        exact .none
      · rw [local?_congr hself, local?_congr hself']
        exact hr.values id name hname
    · rw [local?_congr (scopes_release_ne hid), local?_congr (scopes_release_ne hid)]
      exact hr.values id name hname

end Renamed

end Heap

/-! ## Runs -/

open Heap Correspondence

/-- Renamed heaps, with errors reported at any lines. -/
def renamed (root : ScopeId) (n last : Nat) : Correspondence Heap Heap where
  World := Unit
  Le _ _ := True
  trans _ _ := trivial
  Ran _ _ := True
  ran_refl _ := trivial
  ran_trans _ _ := trivial
  le_of_ran _ := trivial
  Holds _ := Renamed root n last
  Closures _ := Closure.Counterpart n last
  mono _ hc := hc
  beq hc hd := hc.beq hd
  Lines _ _ := True
  Cut _ := False
  strict := False

section

variable {root : ScopeId} {n last : Nat} {v v' : Value} {w : (renamed root n last).World}

theorem values_renamed : (renamed root n last).Values w v v' ↔ v.Counterpart n last v' := by
  constructor
  · intro hv
    cases hv with
    | closure hc => exact .closure hc
    | plain hplain => exact .plain hplain
  · intro hv
    cases hv with
    | closure hc => exact .closure hc
    | plain hplain => exact .plain hplain fun hs => hs.elim

/-- Calls of closures that belong together end alike, when so many more may be nested. -/
def CallsTogether (root : ScopeId) (n last limit allowed : Nat) : Prop :=
  ∀ (w : (renamed root n last).World) (c c' : Closure) (vs vs' : List Value) (l l' : Nat),
    c.Counterpart n last c' → (renamed root n last).AllValues w vs vs' →
      (renamed root n last).Together w (renamed root n last).Values (callAt limit allowed c vs l)
        (callAt limit allowed c' vs' l')

variable {limit allowed : Nat}

theorem serves_renamed {program program' : Nat} {T : Terms} {f : Position → Position}
    {scope : ScopeId} (hcalls : CallsTogether root n last limit allowed)
    (hname : ∀ name, T.name name → name ≠ lastResult)
    (hclose : ∀ params body p, T.literal p → body.Meets T → Closure.Counterpart n last
      ⟨⟨params, body, ⟨program, p⟩⟩, scope⟩ ⟨⟨params, body.placed f, ⟨program', f p⟩⟩, scope⟩) :
    (renamed root n last).Serves w T f (Context.machine ⟨callAt limit allowed, program, scope⟩)
      (Context.machine ⟨callAt limit allowed, program', scope⟩) where
  lines _ := trivial
  hollow hs := hs.elim
  resolve := by
    intro name l l' hn _ w₁ _ h k hr
    have hvalue := Renamed.resolve hr (hname name hn) scope
    show (renamed root n last).Ends w₁ _ (Effect.runOn (Context.resolve _ name l) h)
      (Effect.runOn (Context.resolve _ name l') k)
    rw [Context.runOn_resolve, Context.runOn_resolve]
    dsimp only
    generalize h.resolve scope name = x at hvalue ⊢
    generalize k.resolve scope name = y at hvalue ⊢
    cases hvalue with
    | some hv => exact .ok ((renamed root n last).ran_refl w₁) hr (values_renamed.2 hv)
    | none => exact .error ((renamed root n last).ran_refl w₁) hr rfl trivial
  declare := by
    intro w₁ v v' name _ hv w₂ _ h k hr
    show (renamed root n last).Ends w₂ _ (Effect.runOn (Context.declare _ name v) h)
      (Effect.runOn (Context.declare _ name v') k)
    rw [Context.runOn_declare, Context.runOn_declare]
    exact .ok ((renamed root n last).ran_refl w₂)
      (Renamed.store hr (values_renamed.1 hv) scope name) (values_renamed.2 (.plain rfl))
  close params hp hb := hclose params _ _ hp hb
  invoke _ hc hvs _ := hcalls _ _ _ _ _ _ _ hc hvs
  random := by
    intro w₁ _ h k hr
    show (renamed root n last).Ends w₁ _ (Effect.runOn (Effect.change Heap.random) h)
      (Effect.runOn (Effect.change Heap.random) k)
    rw [Effect.runOn_change, Effect.runOn_change]
    exact .ok ((renamed root n last).ran_refl w₁) (Renamed.random hr)
      ⟨(random_congr (Renamed.draws hr)).1, trivial⟩
  watch _ hm := hm
  watchCall _ _ hm := hm

/-- Programs that were there before go together with themselves. -/
theorem serves_earlier (hcalls : CallsTogether root n last limit allowed) (program : Nat)
    (scope : ScopeId) :
    (renamed root n last).Serves w (.earlier n last program) id
      (Context.machine ⟨callAt limit allowed, program, scope⟩)
      (Context.machine ⟨callAt limit allowed, program, scope⟩) := by
  refine serves_renamed hcalls (fun _ hn => hn) fun params body p hp hb => ?_
  rw [Expr.placed_id]
  exact .earlier ⟨hp, hb⟩

/-- The later program goes together with itself as a part of the earlier one. -/
theorem serves_later (hcalls : CallsTogether root n last limit allowed) (scope : ScopeId) :
    (renamed root n last).Serves w (.forgetful fun _ => True) (Position.down (last + 1))
      (Context.machine ⟨callAt limit allowed, n + 1, scope⟩)
      (Context.machine ⟨callAt limit allowed, n, scope⟩) :=
  serves_renamed hcalls (fun _ hn => hn) fun _ _ _ _ hb => .later hb

/-- The body of a closure beside that of its counterpart. -/
theorem together_body (hcalls : CallsTogether root n last limit allowed) {c c' : Closure}
    (hc : c.Counterpart n last c') (scope : ScopeId) :
    (renamed root n last).Together w (renamed root n last).Values
      (c.lambda.body.eval ⟨callAt limit allowed, c.lambda.origin.program, scope⟩)
      (c'.lambda.body.eval ⟨callAt limit allowed, c'.lambda.origin.program, scope⟩) := by
  rw [← interpret_machine, ← interpret_machine]
  cases hc with
  | earlier hc =>
    have hbody := (serves_earlier hcalls c.lambda.origin.program scope).together_interpret
      c.lambda.body w hc.2
    rwa [Expr.placed_id] at hbody
  | later hbody => exact (serves_later hcalls scope).together_interpret _ w hbody

/-- **Calls go together** on renamed heaps. The induction is on how many more may be nested. -/
theorem callsTogether (root : ScopeId) (n last limit allowed : Nat) :
    CallsTogether root n last limit allowed := by
  induction allowed with
  | zero =>
    intro w c c' vs vs' l l' _ _ w₁ _ h k hr
    rw [runOn_callAt_zero, runOn_callAt_zero]
    exact .error ((renamed root n last).ran_refl w₁) hr rfl trivial
  | succ allowed ih =>
    intro w c c' vs vs' l l' hc hvs w₁ _ h k hr
    have hargs : List.Forall₂ (Value.Counterpart n last) vs vs' :=
      hvs.imp fun _ _ hv => values_renamed.1 hv
    have hends := together_body (w := w₁) ih hc h.next w₁ trivial _ _ (Renamed.enter hr hc hargs)
    rw [runOn_callAt_succ, runOn_callAt_succ, Renamed.next hr]
    dsimp only
    generalize Effect.runOn _ (h.enter c vs).2 = r at hends ⊢
    generalize Effect.runOn _ (k.enter c' vs').2 = r' at hends ⊢
    cases hends with
    | ok _ hs hv =>
      refine .ok ((renamed root n last).ran_refl w₁) ?_ hv
      cases values_renamed.1 hv with
      | closure =>
        rw [leave_closure, leave_closure]
        exact hs
      | plain hplain =>
        rw [leave_of_not_closure (by rintro c ⟨⟩; cases hplain),
          leave_of_not_closure (by rintro c ⟨⟩; cases hplain)]
        exact Renamed.release hs h.next
    | error _ hs hfault _ =>
      exact .error ((renamed root n last).ran_refl w₁) (Renamed.release hs h.next) hfault trivial
    | cut hcut => exact hcut.elim

/-- **Items that do not read `$?` end alike** in a program of their own and further down in another.
The result of what came before is replaced by that of the first item. -/
theorem renamed_evalSeq {h k : Heap} {e : Expr} {es : List Expr}
    (he : Expr.MeetsAll (.forgetful fun _ => True) (e :: es)) (hr : Renamed root n last h k)
    (limit : Nat) (v : Value) :
    (renamed root n last).Ends () (renamed root n last).Values
      (Effect.runOn (Expr.evalSeq ⟨callAt limit limit, n + 1, root⟩ (e :: es) .unit) h)
      (Effect.runOn (Expr.evalSeq ⟨callAt limit limit, n, root⟩
        ((e :: es).map (Expr.placed (Position.down (last + 1)))) v) k) := by
  have hserves := serves_later (w := ()) (callsTogether root n last limit limit) root
  have hunit : (renamed root n last).Values () .unit .unit := values_renamed.2 (.plain rfl)
  have htogether := hserves.together_interpretSeq (e :: es) _ he hunit
  have hlast : ∀ ctx : Context, Expr.evalSeq ctx
      ((e :: es).map (Expr.placed (Position.down (last + 1)))) .unit = Expr.evalSeq ctx
      ((e :: es).map (Expr.placed (Position.down (last + 1)))) v := fun _ => rfl
  rw [interpretSeq_machine, interpretSeq_machine, Expr.placedAll_eq, hlast] at htogether
  exact htogether () trivial h k hr

end

end GeoScript
