import GeoScript.Proofs.Exactness
import GeoScript.Proofs.Renaming

/-!
# Texts in two steps

**The two runs.** A text may be evaluated in one go, or cut in two at a semicolon and evaluated in
two steps. The run in one go counts one program. The other counts two, so the closures of the second
part have other origins. It also binds `$?` and gives frames back after the first part, which the
run in one go does not.

**Theorem (`evaluate_joined`).** For texts that do not read `$?`, in a state that such texts lead to
(`Stepped`), this makes no difference. If the first part fails, the runs are the same. If not, they
end alike, and from the root everything looks alike, except for `$?` (`Heap.SeenAlike`).

**Proof.** The run of the second part goes on in the same way whether frames are given back before
it or not (`stable_alike`). What then differs are origins, places and `$?` (`renamed_evalSeq`).
Giving frames back in the end takes nothing away that is seen from the root, in either run.
-/

namespace GeoScript

/-! ## Where literals stand -/

/-- The terms, with function literals only in places that are left as they are. -/
def Terms.fixing (T : Terms) (f : Position → Position) : Terms :=
  { T with literal := fun p => T.literal p ∧ f p = p }

section

variable {T : Terms} {f : Position → Position}

mutual

/-- If changing its places changes nothing, the function literals of a tree stand where nothing is
changed. -/
theorem Expr.meets_fixing : ∀ e : Expr, e.Meets T → e.placed f = e → e.Meets (T.fixing f)
  | .number _ _, _, _ | .bool _ _, _, _ | .typeTag _ _, _, _ => by simp only [Expr.Meets]
  | .ident _ _, h, _ => by
    simp only [Expr.Meets] at h ⊢
    exact h
  | .decl _ value _, h, hp => by
    simp only [Expr.placed, Expr.decl.injEq] at hp
    simp only [Expr.Meets] at h ⊢
    exact value.meets_fixing h hp.2.1
  | .seq items _, h, hp => by
    simp only [Expr.placed, Expr.seq.injEq] at hp
    simp only [Expr.Meets] at h ⊢
    exact Expr.meetsAll_fixing items h hp.1
  | .geometry _ body _, h, hp => by
    simp only [Expr.placed, Expr.geometry.injEq] at hp
    simp only [Expr.Meets] at h ⊢
    exact body.meets_fixing h hp.2.1
  | .function _ body _, h, hp => by
    simp only [Expr.placed, Expr.function.injEq] at hp
    simp only [Expr.Meets] at h ⊢
    exact ⟨⟨h.1, hp.2.2⟩, body.meets_fixing h.2 hp.2.1⟩
  | .call callee args, h, hp => by
    simp only [Expr.placed, Expr.call.injEq] at hp
    simp only [Expr.Meets] at h ⊢
    exact ⟨callee.meets_fixing h.1 hp.1, Expr.meetsAll_fixing args h.2 hp.2⟩
  | .access target _ args, h, hp => by
    simp only [Expr.placed, Expr.access.injEq] at hp
    simp only [Expr.Meets] at h ⊢
    exact ⟨target.meets_fixing h.1 hp.1, Expr.meetsAll_fixing args h.2 hp.2.2⟩
  | .binary _ left right, h, hp => by
    simp only [Expr.placed, Expr.binary.injEq] at hp
    simp only [Expr.Meets] at h ⊢
    exact ⟨left.meets_fixing h.1 hp.2.1, right.meets_fixing h.2 hp.2.2⟩
  | .generate count body _, h, hp => by
    simp only [Expr.placed, Expr.generate.injEq] at hp
    simp only [Expr.Meets] at h ⊢
    exact ⟨count.meets_fixing h.1 hp.1, body.meets_fixing h.2 hp.2.1⟩
  | .cond condition thenBranch elseBranch _, h, hp => by
    simp only [Expr.placed, Expr.cond.injEq] at hp
    simp only [Expr.Meets] at h ⊢
    exact ⟨condition.meets_fixing h.1 hp.1, thenBranch.meets_fixing h.2.1 hp.2.1,
      elseBranch.meets_fixing h.2.2 hp.2.2.1⟩
  | .not operand _, h, hp => by
    simp only [Expr.placed, Expr.not.injEq] at hp
    simp only [Expr.Meets] at h ⊢
    exact operand.meets_fixing h hp.1
  | .neg operand _, h, hp => by
    simp only [Expr.placed, Expr.neg.injEq] at hp
    simp only [Expr.Meets] at h ⊢
    exact operand.meets_fixing h hp.1

theorem Expr.meetsAll_fixing :
    ∀ es : List Expr, Expr.MeetsAll T es → Expr.placedAll f es = es →
      Expr.MeetsAll (T.fixing f) es
  | [], _, _ => by simp only [Expr.MeetsAll]
  | e :: es, h, hp => by
    simp only [Expr.placedAll, List.cons.injEq] at hp
    simp only [Expr.MeetsAll] at h ⊢
    exact ⟨e.meets_fixing h.1 hp.1, Expr.meetsAll_fixing es h.2 hp.2⟩

theorem Element.meets_fixing : ∀ e : Element, e.Meets T → e.placed f = e → e.Meets (T.fixing f)
  | .pair x y, h, hp => by
    simp only [Element.placed, Element.pair.injEq] at hp
    simp only [Element.Meets] at h ⊢
    exact ⟨x.meets_fixing h.1 hp.1, y.meets_fixing h.2 hp.2⟩
  | .value e, h, hp => by
    simp only [Element.placed, Element.value.injEq] at hp
    simp only [Element.Meets] at h ⊢
    exact e.meets_fixing h hp

theorem Element.meetsAll_fixing :
    ∀ es : List Element, Element.MeetsAll T es → Element.placedAll f es = es →
      Element.MeetsAll (T.fixing f) es
  | [], _, _ => by simp only [Element.MeetsAll]
  | e :: es, h, hp => by
    simp only [Element.placedAll, List.cons.injEq] at hp
    simp only [Element.MeetsAll] at h ⊢
    exact ⟨e.meets_fixing h.1 hp.1, Element.meetsAll_fixing es h.2 hp.2⟩

theorem Element.meetsRings_fixing :
    ∀ rs : List (List Element), Element.MeetsRings T rs → Element.placedRings f rs = rs →
      Element.MeetsRings (T.fixing f) rs
  | [], _, _ => by simp only [Element.MeetsRings]
  | r :: rs, h, hp => by
    simp only [Element.placedRings, List.cons.injEq] at hp
    simp only [Element.MeetsRings] at h ⊢
    exact ⟨h.1, Element.meetsAll_fixing r h.2.1 hp.1, Element.meetsRings_fixing rs h.2.2 hp.2⟩

theorem Element.meetsPolygons_fixing :
    ∀ ps : List (List (List Element)), Element.MeetsPolygons T ps →
      Element.placedPolygons f ps = ps → Element.MeetsPolygons (T.fixing f) ps
  | [], _, _ => by simp only [Element.MeetsPolygons]
  | p :: ps, h, hp => by
    simp only [Element.placedPolygons, List.cons.injEq] at hp
    simp only [Element.MeetsPolygons] at h ⊢
    exact ⟨h.1, Element.meetsRings_fixing p h.2.1 hp.1, Element.meetsPolygons_fixing ps h.2.2 hp.2⟩

theorem Body.meets_fixing : ∀ b : Body, b.Meets T → b.placed f = b → b.Meets (T.fixing f)
  | .empty, _, _ => by simp only [Body.Meets]
  | .point x y, h, hp => by
    simp only [Body.placed, Body.point.injEq] at hp
    simp only [Body.Meets] at h ⊢
    exact ⟨x.meets_fixing h.1 hp.1, y.meets_fixing h.2 hp.2⟩
  | .elements items, h, hp => by
    simp only [Body.placed, Body.elements.injEq] at hp
    simp only [Body.Meets] at h ⊢
    exact Element.meetsAll_fixing items h hp
  | .rings rs, h, hp => by
    simp only [Body.placed, Body.rings.injEq] at hp
    simp only [Body.Meets] at h ⊢
    exact Element.meetsRings_fixing rs h hp
  | .polygons ps, h, hp => by
    simp only [Body.placed, Body.polygons.injEq] at hp
    simp only [Body.Meets] at h ⊢
    exact Element.meetsPolygons_fixing ps h hp

end

end

/-- A program that ends on the line `last`, run as the program `n`. -/
theorem Expr.Forgetful.meets_earlier {e : Expr} {last : Nat} (he : e.Forgetful)
    (hp : e.placed (Position.upTo last) = e) (n : Nat) : e.Meets (.earlier n last n) := by
  have hterms : (Terms.forgetful fun _ => True).fixing (Position.upTo last) =
      .earlier n last n := by
    simp [Terms.fixing, Terms.earlier, Terms.forgetful]
  rw [← hterms]
  exact e.meets_fixing he hp

/-! ## States that texts lead to -/

open Heap

/-- The states of a root that texts which do not read `$?` lead to, one after the other. -/
inductive Stepped : Heap → Prop
  | start (libraries : Bool) (draws : Draws) : Stepped (Heap.start libraries draws).2
  | evaluate {h : Heap} (source : String) : Stepped h →
    (∀ program, parse source = .ok program → program.Forgetful) → Stepped (evaluate source 0 h).2

/-- The literals of programs before `n`. -/
def Terms.before (n program : Nat) : Terms := .forgetful fun _ => program < n

theorem Value.meets_of_plain {v : Value} (hv : v.isClosure = false)
    (literal : Nat → Position → Prop) : v.Meets fun program => .forgetful (literal program) := by
  cases v with
  | closure => cases hv
  | _ => exact fun hhollow => absurd trivial (hhollow 0)

/-- What was made by programs before `n` keeps to all terms that allow them their literals. -/
theorem Value.Meets.of_before {v : Value} {n : Nat} {literal : Nat → Position → Prop}
    (hv : v.Meets (.before n)) (hliteral : ∀ program < n, ∀ p, literal program p) :
    v.Meets fun program => .forgetful (literal program) := by
  cases v with
  | closure c =>
    have hlt : c.lambda.origin.program < n := hv.1
    have hterms : Terms.before n c.lambda.origin.program =
        .forgetful (literal c.lambda.origin.program) := by
      rw [Terms.before]
      congr
      funext p
      exact propext ⟨fun _ => hliteral _ hlt p, fun _ => hlt⟩
    have hbody := hv.2
    rw [hterms] at hbody
    exact ⟨hliteral _ hlt _, hbody⟩
  | _ => exact Value.meets_of_plain rfl literal

/-- An evaluation counts one program. -/
theorem programs_evaluate {source : String} {program : Expr} (hp : parse source = .ok program)
    (scope : ScopeId) (h : Heap) : (evaluate source scope h).2.programs = h.programs + 1 := by
  rw [evaluate_of_parse hp, collect_eq]
  exact (footprint_remember callLimit program scope h).programs

namespace Stepped

variable {h : Heap}

theorem session (hs : Stepped h) : Session 0 h ∧ 0 ∈ h.held := by
  induction hs with
  | start libraries draws =>
    have hs := Session.start libraries draws
    rw [start_fst] at hs
    refine ⟨hs, ?_⟩
    cases libraries with
    | false => exact List.mem_cons_self
    | true => exact List.mem_cons_self
  | evaluate source _ _ ih =>
    refine ⟨.evaluate source ih.1 ih.2, ?_⟩
    rw [(held_evaluate source 0 _).1]
    exact ih.2

theorem rooted (hs : Stepped h) : Rooted 0 h := hs.session.1.rooted.1

/-- Whatever is bound was made by the programs so far, which do not read `$?`. -/
theorem binds (hs : Stepped h) : h.Binds (Value.Meets (.before h.programs)) := by
  induction hs with
  | start libraries draws =>
    exact binds_start (fun b hb => Value.meets_of_plain (isClosure_of_mem_standardBindings hb) _)
      libraries draws
  | @evaluate h source _ hforget ih =>
    cases hp : parse source with
    | error err =>
      rw [GeoScript.evaluate, hp]
      exact ih
    | ok program =>
      have hterms : Terms.before (h.programs + 1) h.programs = .forgetful fun _ => True := by
        simp [Terms.before]
      have hprogram : program.Meets (.before (h.programs + 1) h.programs) := by
        rw [hterms]
        exact hforget program hp
      have hbefore : h.Binds (Value.Meets (.before (h.programs + 1))) :=
        fun id name v hl => (ih id name v hl).of_before fun _ hlt _ => Nat.lt_succ_of_lt hlt
      obtain ⟨-, -, -, -, hb, hv⟩ :=
        record_execute (Nat.le_refl callLimit) hprogram hbefore 0
      rw [programs_evaluate hp, evaluate_of_parse hp]
      exact (hb.remember hv).collect _

end Stepped

/-! ## What is seen from the root -/

/-- The scopes of `A`, with the root among them, are in both heaps, with the same scopes around them
and with values that belong together. They lead only to scopes of `A`. Nothing is said of what the
root binds to `$?`. -/
structure Heap.SeenAlike (root : ScopeId) (n last : Nat) (A : Set ScopeId) (h k : Heap) :
    Prop where
  mem_root : root ∈ A
  parent : ∀ id ∈ A, ∃ s, h.scopes[id]? = some s ∧
    (s.ancestors = [] ∨ ∃ p ∈ A, s.ancestors = h.chain p)
  ancestors : ∀ id ∈ A, k.scopes[id]?.map Scope.ancestors = h.scopes[id]?.map Scope.ancestors
  values : ∀ id ∈ A, ∀ name, (id = root → name ≠ lastResult) →
    Option.Rel (Value.Counterpart n last) (h.local? name id) (k.local? name id)
  closures : ∀ id ∈ A, ∀ name, (id = root → name ≠ lastResult) → ∀ c,
    h.local? name id = some (.closure c) → c.scope ∈ A

/-- Evaluations that end alike: with values that belong together and lead to scopes of `A`, or with
the same fault. -/
inductive SameOutcome (n last : Nat) (A : Set ScopeId) :
    Except Error Value → Except Error Value → Prop
  | ok {v v' : Value} : v.Counterpart n last v' → (∀ c, v = .closure c → c.scope ∈ A) →
    SameOutcome n last A (.ok v) (.ok v')
  | error {e e' : EvalError} : e'.fault = e.fault →
    SameOutcome n last A (.error (.running e)) (.error (.running e'))

namespace Heap

variable {root id p : ScopeId} {n last : Nat} {A : Set ScopeId} {h k x y z : Heap} {name : String}

/-- A heap with one root is like itself. -/
theorem Rooted.alike_self (hr : Rooted root h) : Alike {id | id ∈ h.scopes} h h :=
  hr.alike_keeping.of_keeps (fun _ _ => rfl) (fun _ _ => rfl) (Nat.le_refl _) rfl rfl rfl

theorem leads_of_local? {c : Closure} (hl : h.Leads root id)
    (hc : h.local? name id = some (.closure c)) : h.Leads root c.scope := by
  rcases refers_of_local? hc with heq | hrefers
  · rw [heq]
    exact hl
  · exact hl.tail hrefers

theorem leads_of_ancestors (hl : h.Leads root id)
    (ha : h.scopes[id]?.map Scope.ancestors = some (h.chain p)) : h.Leads root p := by
  obtain ⟨s, hs, hanc⟩ := Option.map_eq_some_iff.1 ha
  refine hl.tail ⟨s, hs, ?_⟩
  simp [Scope.references, Scope.parent?, hanc, chain]

/-- The scopes of `A` that the root leads to in both heaps. -/
def seen (root : ScopeId) (A : Set ScopeId) (h k : Heap) : Set ScopeId :=
  {id | id ∈ A ∧ h.Leads root id ∧ k.Leads root id}

/-- A closure of the first heap and its counterpart in the second lead to a scope that is seen. -/
theorem mem_seen_of_local? {c : Closure} {v : Value} (ha : Alike A x y)
    (hid : id ∈ seen root A x z) (hc : x.local? name id = some (.closure c))
    (hv : z.local? name id = some v) (hcv : Value.Counterpart n last (.closure c) v) :
    c.scope ∈ seen root A x z := by
  obtain ⟨hA, hx, hz⟩ := hid
  cases hcv with
  | closure hcc =>
    have hlead := leads_of_local? hz hv
    rw [hcc.scope_eq] at hlead
    exact ⟨ha.closures id hA name _ _ hc, leads_of_local? hx hc, hlead⟩
  | plain hplain => cases hplain

/-- **Giving frames back takes nothing away that is seen.** -/
theorem seenAlike_collect (ha : Alike A x y) (hr : Renamed root n last y z) (hroot : root ∈ A)
    (hx : root ∈ x.held) (hz : root ∈ z.held) (r r' : ScopeId) :
    SeenAlike root n last (seen root A x z) (x.collect r) (z.collect r') := by
  have hkeepx : ∀ id ∈ seen root A x z, (x.collect r).scopes[id]? = x.scopes[id]? :=
    fun id hid => scopes_collect_of_inUse ⟨root, hx, hid.2.1⟩ r
  have hkeepz : ∀ id ∈ seen root A x z, (z.collect r').scopes[id]? = z.scopes[id]? :=
    fun id hid => scopes_collect_of_inUse ⟨root, hz, hid.2.2⟩ r'
  have hanc : ∀ id ∈ seen root A x z,
      z.scopes[id]?.map Scope.ancestors = x.scopes[id]?.map Scope.ancestors :=
    fun id hid => (hr.ancestors id).trans (ha.ancestors id hid.1)
  have hvalues : ∀ id ∈ seen root A x z, ∀ name, (id = root → name ≠ lastResult) →
      Option.Rel (Value.Counterpart n last) (x.local? name id) (z.local? name id) := by
    intro id hid name hname
    rw [← ha.values id hid.1 name]
    exact hr.values id name hname
  refine ⟨⟨hroot, .refl, .refl⟩, ?_, ?_, ?_, ?_⟩
  · intro id hid
    obtain ⟨s, hs, hparent⟩ := ha.parent id hid.1
    refine ⟨s, (hkeepx id hid).trans hs, hparent.imp_right ?_⟩
    rintro ⟨p, hp, hchain⟩
    have hpx : x.scopes[id]?.map Scope.ancestors = some (x.chain p) := by
      rw [hs, Option.map_some, hchain]
    have hpz : z.scopes[id]?.map Scope.ancestors = some (z.chain p) := by
      rw [hanc id hid, hpx, hr.chain_eq, ha.chain_eq hp]
    have hmem : p ∈ seen root A x z :=
      ⟨hp, leads_of_ancestors hid.2.1 hpx, leads_of_ancestors hid.2.2 hpz⟩
    refine ⟨p, hmem, ?_⟩
    rw [hchain, chain_congr (by rw [hkeepx p hmem])]
  · intro id hid
    rw [hkeepx id hid, hkeepz id hid, hanc id hid]
  · intro id hid name hname
    rw [local?_congr (hkeepx id hid), local?_congr (hkeepz id hid)]
    exact hvalues id hid name hname
  · intro id hid name hname c hc
    rw [local?_congr (hkeepx id hid)] at hc
    have hvalue := hvalues id hid name hname
    rw [hc] at hvalue
    cases hv : z.local? name id with
    | none =>
      rw [hv] at hvalue
      cases hvalue
    | some v =>
      rw [hv] at hvalue
      cases hvalue with
      | some hcv => exact mem_seen_of_local? ha hid hc hv hcv

end Heap

/-! ## Sequences -/

theorem evalSeq_append (ctx : Context) (es fs : List Expr) (v : Value) :
    Expr.evalSeq ctx (es ++ fs) v = Expr.evalSeq ctx es v >>= Expr.evalSeq ctx fs := by
  induction es generalizing v with
  | nil => rw [List.nil_append, Expr.evalSeq, pure_bind]
  | cons e es ih =>
    simp only [List.cons_append, Expr.evalSeq, bind_assoc]
    congr
    funext u
    exact ih u

/-- A sequence is run on the heap that counts it. -/
theorem execute_seq (h : Heap) (limit : Nat) (es : List Expr) (p : Position) (scope : ScopeId) :
    h.execute limit (.seq es p) scope =
      (Expr.evalSeq ⟨callAt limit limit, h.programs, scope⟩ es .unit).runOn
        { h with programs := h.programs + 1 } := by
  rw [Heap.execute, Expr.eval]
  rfl

section

variable {h k : Heap} {limit : Nat} {es fs : List Expr} {p q : Position} {scope : ScopeId}

theorem execute_append_ok {v : Value} (he : h.execute limit (.seq es p) scope = (.ok v, k)) :
    h.execute limit (.seq (es ++ fs) q) scope =
      (Expr.evalSeq ⟨callAt limit limit, h.programs, scope⟩ fs v).runOn k := by
  rw [execute_seq] at he ⊢
  rw [evalSeq_append, Effect.runOn_bind_ok he]

theorem execute_append_error {err : EvalError}
    (he : h.execute limit (.seq es p) scope = (.error err, k)) :
    h.execute limit (.seq (es ++ fs) q) scope = (.error err, k) := by
  rw [execute_seq] at he ⊢
  rw [evalSeq_append, Effect.runOn_bind_error he]

end

/-! ## The second part -/

/-- If everything bound was there before, binding `$?` in the root renames nothing. -/
theorem Heap.Binds.renamed {n last : Nat} {k : Heap} (hb : k.Binds (Value.Meets (.earlier n last)))
    (root : ScopeId) (v : Value) (count : Nat) :
    Renamed root n last { k.store root lastResult v with programs := count } k where
  next := rfl
  held := rfl
  draws := rfl
  reclaims := rfl
  ancestors _ := ancestors_store.symm
  values id name hname := by
    have hsame : Heap.local? { k.store root lastResult v with programs := count } name id =
        k.local? name id := local?_store_ne hname
    rw [hsame]
    cases hl : k.local? name id with
    | none => exact .none
    | some u => exact .some (hb id name u hl).counterpart

/-- **The second part ends alike** in a step of its own, after `$?` was bound and frames were given
back, and in one go. -/
theorem second_part {root : ScopeId} {n last limit : Nat} {k : Heap} {v : Value} {e : Expr}
    {es : List Expr} (hprograms : k.programs = n + 1)
    (hrooted : Rooted root (k.store root lastResult v)) (hheld : root ∈ k.held)
    (hb : k.Binds (Value.Meets (.earlier n last)))
    (he : Expr.MeetsAll (.forgetful fun _ => True) (e :: es)) (q : Position) (r r₁ r₂ : ScopeId) :
    let x := ((k.store root lastResult v).collect r).execute limit (.seq (e :: es) q) root
    let z := (Expr.evalSeq ⟨callAt limit limit, n, root⟩
      ((e :: es).map (Expr.placed (Position.down (last + 1)))) v).runOn k
    ∃ A, SameOutcome n last A (x.1.mapError .running) (z.1.mapError .running) ∧
      SeenAlike root n last A ((x.2.remember root x.1).collect r₁)
        ((z.2.remember root z.1).collect r₂) := by
  intro x z
  -- Without frames given back, the second part runs as it does with them.
  have halike := Alike.collect hrooted.alike_self hrooted.mem_root hheld r
  obtain ⟨hout, (A : Set ScopeId), hA, (ha : Alike A _ _)⟩ :=
    stable_alike.execute_remember halike .refl limit (.seq (e :: es) q)
  have hroot : root ∈ A := hA .refl
  have hheldx : root ∈ (x.2.remember root x.1).held := by
    rw [(footprint_remember limit _ root _).held, collect_eq]
    exact hheld
  have hheldy := (footprint_remember limit (.seq (e :: es) q) root
    (k.store root lastResult v)).held
  -- Then it goes by other names.
  have hends := renamed_evalSeq he (hb.renamed root v (n + 2)) limit v
  have hrun : (k.store root lastResult v).execute limit (.seq (e :: es) q) root =
      (Expr.evalSeq ⟨callAt limit limit, n + 1, root⟩ (e :: es) .unit).runOn
        { k.store root lastResult v with programs := n + 2 } := by
    rw [execute_seq, programs_store, hprograms]
  rw [← hrun] at hends
  change (renamed root n last).Ends () _ _ z at hends
  change _ = x.1 at hout
  rw [← hout] at ha hheldx ⊢
  generalize (k.store root lastResult v).execute limit (.seq (e :: es) q) root = y at *
  clear_value z
  cases hends with
  | @ok _ u u' y z _ hs hv =>
    replace hv := values_renamed.1 hv
    have hrenamed := Renamed.store hs hv root lastResult
    have hheldz : root ∈ (z.store root lastResult u').held := by
      rw [hrenamed.held]
      exact hheldy ▸ hheld
    refine ⟨_, .ok hv ?_, seenAlike_collect ha hrenamed hroot hheldx hheldz r₁ r₂⟩
    rintro c rfl
    have hmem : root ∈ y.scopes := mem_scopes_store.1 (ha.mem_right hroot)
    have hx := ha.values root hroot lastResult
    rw [remember, local?_store_self hmem] at hx
    exact mem_seen_of_local? ha ⟨hroot, .refl, .refl⟩ hx.symm
      (local?_store_self (hs.mem_iff.2 hmem)) hv
  | @error _ err err' y z _ hs hfault _ =>
    have hheldz : root ∈ z.held := by
      rw [Renamed.held hs]
      exact hheldy ▸ hheld
    exact ⟨_, .error hfault, seenAlike_collect ha hs hroot hheldx hheldz r₁ r₂⟩
  | cut hcut => exact hcut.elim

/-! ## Whole evaluations -/

/-- The items of a program. -/
def Expr.items : Expr → List Expr
  | .seq items _ => items
  | e => [e]

/-- After the first part, everything bound was there before the second, and no literal of the first
part stands below its last line. -/
theorem Stepped.binds_execute {h : Heap} {a : Expr} {last : Nat} (hs : Stepped h)
    (hforget : a.Forgetful) (hfixed : a.placed (Position.upTo last) = a) (limit : Nat) :
    (h.execute limit a 0).2.Binds (Value.Meets (.earlier h.programs last)) := by
  have hb : h.Binds (Value.Meets (.earlier h.programs last)) :=
    fun id name v hl => (hs.binds id name v hl).of_before fun _ hlt _ => Or.inl hlt
  obtain ⟨-, -, -, -, hb', -⟩ := record_execute (T := .earlier h.programs last) (Nat.le_refl limit)
    (hforget.meets_earlier hfixed h.programs) hb 0
  exact hb'

/-- **Splitting a text into steps does not change its meaning.** The joined text has the items of
both. Where the first step fails, so does the joined text, with the same error and the same heap.
Otherwise it ends as the second step does, and everything is seen alike but `$?`. -/
theorem evaluate_joined {h : Heap} (hs : Stepped h) {source source' : String} {a b : Expr}
    (ha : parse source = .ok a) (hb : parse source' = .ok b) (hforget : a.Forgetful)
    (hforget' : b.Forgetful) (hitems : b.items ≠ []) :
    (∃ c, parse (joined source source') = .ok c ∧
      c.items.map Expr.unplaced = (a.items ++ b.items).map Expr.unplaced) ∧
    (∀ err, (evaluate source 0 h).1 = .error err →
      evaluate (joined source source') 0 h = evaluate source 0 h) ∧
    ∀ v, (evaluate source 0 h).1 = .ok v → ∃ A : Set ScopeId,
      let split := evaluate source' 0 (evaluate source 0 h).2
      let whole := evaluate (joined source source') 0 h
      SameOutcome h.programs (lastLine source) A split.1 whole.1 ∧
        SeenAlike 0 h.programs (lastLine source) A split.2 whole.2 := by
  obtain ⟨ps, p, qs, q, r, rfl, rfl, hjoined, hfixed⟩ := parse_joined ha hb
  rw [evaluate_of_parse ha, evaluate_of_parse hjoined]
  have hbinds := hs.binds_execute hforget hfixed callLimit
  have hrooted := (hs.rooted.execute_remember hs.rooted.mem_root callLimit (.seq ps p)).1
  have hfoot := footprint_execute callLimit (.seq ps p) 0 h
  rcases hrun : h.execute callLimit (.seq ps p) 0 with ⟨result, k⟩
  rw [hrun] at hbinds hrooted hfoot
  refine ⟨⟨_, hjoined, ?_⟩, ?_, ?_⟩
  · simp [Expr.items, Expr.unplaced_placed]
  · intro err herr
    cases result with
    | ok v => cases herr
    | error e => rw [execute_append_error hrun]
  · intro v hv
    cases result with
    | error e => cases hv
    | ok u =>
      cases qs with
      | nil => exact absurd rfl hitems
      | cons e es =>
        have hheld : 0 ∈ k.held := by
          rw [hfoot.held]
          exact hs.session.2
        dsimp only
        rw [evaluate_of_parse hb, execute_append_ok hrun]
        exact second_part hfoot.programs hrooted hheld hbinds hforget' q _ _ _

/-- What is checked of the program of a text. -/
theorem exists_of_any_parse {P : Expr → Prop} [DecidablePred P] {s : String}
    (h : (parse s).toOption.any (fun a => decide (P a)) = true) :
    ∃ a, parse s = .ok a ∧ P a := by
  cases hp : parse s with
  | error err =>
    rw [hp] at h
    cases h
  | ok a =>
    rw [hp] at h
    exact ⟨a, rfl, of_decide_eq_true h⟩

/-- The first step binds a closure, the second makes one that reads it. -/
theorem evaluate_joined_closures :
    let h := (Heap.start true 0).2
    let source := "f = Function(a => a)"
    let source' := "Function(x => f)"
    let split := evaluate source' 0 (evaluate source 0 h).2
    let whole := evaluate (joined source source') 0 h
    Stepped h ∧ (evaluate source 0 h).1.isOk = true ∧ whole.1.isOk = true ∧
      ∃ A : Set ScopeId, SameOutcome h.programs (lastLine source) A split.1 whole.1 ∧
        SeenAlike 0 h.programs (lastLine source) A split.2 whole.2 := by
  intro h source source' split whole
  have hs : Stepped h := .start true 0
  obtain ⟨a, ha, hforget⟩ := exists_of_any_parse (P := Expr.Forgetful) (s := source)
    (by decide +kernel)
  obtain ⟨b, hb, hforget', hitems⟩ := exists_of_any_parse
    (P := fun b => b.Forgetful ∧ b.items ≠ []) (s := source') (by decide +kernel)
  have hfirst : (evaluate source 0 h).1.isOk = true := by decide +kernel
  have hwhole : whole.1.isOk = true := by decide +kernel
  refine ⟨hs, hfirst, hwhole, ?_⟩
  cases hv : (evaluate source 0 h).1 with
  | error err =>
    rw [hv] at hfirst
    cases hfirst
  | ok v => exact (evaluate_joined hs ha hb hforget hforget' hitems).2.2 v hv

end GeoScript
