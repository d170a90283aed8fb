import GeoScript.Proofs.Correspondence
import GeoScript.Proofs.Places

/-!
# The walk on two machines

**Terms.** What two machines have in common may depend on what a program contains. Terms say which
names it may read, where function literals may stand in it, and whether it may have empty lists
inside geometries. They hold of the bodies of function literals as well (`Expr.Meets`).

**Theorem (`Serves.together_interpret`).** If the operations of two machines go together, then so
does the walk over every expression that meets the terms. The second machine may walk over the
expression with its places changed.
-/

namespace GeoScript

/-! ## Terms -/

/-- What a program may contain. -/
structure Terms where
  /-- The names that may be read. -/
  name : String → Prop
  /-- The places where function literals may stand. -/
  literal : Position → Prop
  /-- Whether there may be empty lists inside geometries. -/
  hollow : Prop

/-- Everything is allowed. -/
def Terms.any : Terms := ⟨fun _ => True, fun _ => True, True⟩

mutual

/-- The expression contains only what the terms allow. -/
def Expr.Meets (T : Terms) : Expr → Prop
  | .number _ _ | .bool _ _ | .typeTag _ _ => True
  | .ident name _ => T.name name
  | .decl _ value _ => value.Meets T
  | .seq items _ => Expr.MeetsAll T items
  | .geometry _ body _ => body.Meets T
  | .function _ body p => T.literal p ∧ body.Meets T
  | .call callee args => callee.Meets T ∧ Expr.MeetsAll T args
  | .access target _ args => target.Meets T ∧ Expr.MeetsAll T args
  | .binary _ left right => left.Meets T ∧ right.Meets T
  | .generate count body _ => count.Meets T ∧ body.Meets T
  | .cond condition thenBranch elseBranch _ =>
    condition.Meets T ∧ thenBranch.Meets T ∧ elseBranch.Meets T
  | .not operand _ => operand.Meets T
  | .neg operand _ => operand.Meets T

def Expr.MeetsAll (T : Terms) : List Expr → Prop
  | [] => True
  | e :: es => e.Meets T ∧ Expr.MeetsAll T es

def Element.Meets (T : Terms) : Element → Prop
  | .pair x y => x.Meets T ∧ y.Meets T
  | .value e => e.Meets T

def Element.MeetsAll (T : Terms) : List Element → Prop
  | [] => True
  | e :: es => e.Meets T ∧ Element.MeetsAll T es

def Element.MeetsRings (T : Terms) : List (List Element) → Prop
  | [] => True
  | r :: rs => (T.hollow ∨ r ≠ []) ∧ Element.MeetsAll T r ∧ Element.MeetsRings T rs

def Element.MeetsPolygons (T : Terms) : List (List (List Element)) → Prop
  | [] => True
  | p :: ps => (T.hollow ∨ p ≠ []) ∧ Element.MeetsRings T p ∧ Element.MeetsPolygons T ps

def Body.Meets (T : Terms) : Body → Prop
  | .empty => True
  | .point x y => x.Meets T ∧ y.Meets T
  | .elements items => Element.MeetsAll T items
  | .rings rs => Element.MeetsRings T rs
  | .polygons ps => Element.MeetsPolygons T ps

end

section

variable (T : Terms) [DecidablePred T.name] [DecidablePred T.literal] [Decidable T.hollow]

mutual

/-- Whether an expression meets the terms can be decided if the terms can. -/
def Expr.decideMeets : ∀ e : Expr, Decidable (e.Meets T)
  | .number _ _ | .bool _ _ | .typeTag _ _ => .isTrue trivial
  | .ident name _ => inferInstanceAs (Decidable (T.name name))
  | .decl _ value _ => value.decideMeets
  | .seq items _ => Expr.decideMeetsAll items
  | .geometry _ body _ => body.decideMeets
  | .function _ body _ => @instDecidableAnd _ _ _ body.decideMeets
  | .call callee args => @instDecidableAnd _ _ callee.decideMeets (Expr.decideMeetsAll args)
  | .access target _ args => @instDecidableAnd _ _ target.decideMeets (Expr.decideMeetsAll args)
  | .binary _ left right => @instDecidableAnd _ _ left.decideMeets right.decideMeets
  | .generate count body _ => @instDecidableAnd _ _ count.decideMeets body.decideMeets
  | .cond condition thenBranch elseBranch _ =>
    @instDecidableAnd _ _ condition.decideMeets
      (@instDecidableAnd _ _ thenBranch.decideMeets elseBranch.decideMeets)
  | .not operand _ | .neg operand _ => operand.decideMeets

def Expr.decideMeetsAll : ∀ es : List Expr, Decidable (Expr.MeetsAll T es)
  | [] => .isTrue trivial
  | e :: es => @instDecidableAnd _ _ e.decideMeets (Expr.decideMeetsAll es)

def Element.decideMeets : ∀ e : Element, Decidable (e.Meets T)
  | .pair x y => @instDecidableAnd _ _ x.decideMeets y.decideMeets
  | .value e => e.decideMeets

def Element.decideMeetsAll : ∀ es : List Element, Decidable (Element.MeetsAll T es)
  | [] => .isTrue trivial
  | e :: es => @instDecidableAnd _ _ e.decideMeets (Element.decideMeetsAll es)

def Element.decideMeetsRings : ∀ rs : List (List Element), Decidable (Element.MeetsRings T rs)
  | [] => .isTrue trivial
  | r :: rs => @instDecidableAnd _ _ inferInstance
    (@instDecidableAnd _ _ (Element.decideMeetsAll r) (Element.decideMeetsRings rs))

def Element.decideMeetsPolygons :
    ∀ ps : List (List (List Element)), Decidable (Element.MeetsPolygons T ps)
  | [] => .isTrue trivial
  | p :: ps => @instDecidableAnd _ _ inferInstance
    (@instDecidableAnd _ _ (Element.decideMeetsRings p) (Element.decideMeetsPolygons ps))

def Body.decideMeets : ∀ b : Body, Decidable (b.Meets T)
  | .empty => .isTrue trivial
  | .point x y => @instDecidableAnd _ _ x.decideMeets y.decideMeets
  | .elements items => Element.decideMeetsAll items
  | .rings rs => Element.decideMeetsRings rs
  | .polygons ps => Element.decideMeetsPolygons ps

end

end

mutual

theorem Expr.meets_any : ∀ e : Expr, e.Meets .any
  | .number _ _ | .bool _ _ | .typeTag _ _ | .ident _ _ => by simp [Expr.Meets, Terms.any]
  | .decl _ value _ => by simpa only [Expr.Meets] using Expr.meets_any value
  | .seq items _ => by simpa only [Expr.Meets] using Expr.meetsAll_any items
  | .geometry _ body _ => by simpa only [Expr.Meets] using Body.meets_any body
  | .function _ body _ => by simpa only [Expr.Meets] using ⟨trivial, Expr.meets_any body⟩
  | .call callee args => by
    simpa only [Expr.Meets] using ⟨Expr.meets_any callee, Expr.meetsAll_any args⟩
  | .access target _ args => by
    simpa only [Expr.Meets] using ⟨Expr.meets_any target, Expr.meetsAll_any args⟩
  | .binary _ left right => by
    simpa only [Expr.Meets] using ⟨Expr.meets_any left, Expr.meets_any right⟩
  | .generate count body _ => by
    simpa only [Expr.Meets] using ⟨Expr.meets_any count, Expr.meets_any body⟩
  | .cond condition thenBranch elseBranch _ => by
    simpa only [Expr.Meets] using
      ⟨Expr.meets_any condition, Expr.meets_any thenBranch, Expr.meets_any elseBranch⟩
  | .not operand _ => by simpa only [Expr.Meets] using Expr.meets_any operand
  | .neg operand _ => by simpa only [Expr.Meets] using Expr.meets_any operand

theorem Expr.meetsAll_any : ∀ es : List Expr, Expr.MeetsAll .any es
  | [] => by simp only [Expr.MeetsAll]
  | e :: es => by simpa only [Expr.MeetsAll] using ⟨Expr.meets_any e, Expr.meetsAll_any es⟩

theorem Element.meets_any : ∀ e : Element, e.Meets .any
  | .pair x y => by simpa only [Element.Meets] using ⟨Expr.meets_any x, Expr.meets_any y⟩
  | .value e => by simpa only [Element.Meets] using Expr.meets_any e

theorem Element.meetsAll_any : ∀ es : List Element, Element.MeetsAll .any es
  | [] => by simp only [Element.MeetsAll]
  | e :: es => by
    simpa only [Element.MeetsAll] using ⟨Element.meets_any e, Element.meetsAll_any es⟩

theorem Element.meetsRings_any : ∀ rs : List (List Element), Element.MeetsRings .any rs
  | [] => by simp only [Element.MeetsRings]
  | r :: rs => by
    simpa only [Element.MeetsRings] using
      ⟨Or.inl trivial, Element.meetsAll_any r, Element.meetsRings_any rs⟩

theorem Element.meetsPolygons_any :
    ∀ ps : List (List (List Element)), Element.MeetsPolygons .any ps
  | [] => by simp only [Element.MeetsPolygons]
  | p :: ps => by
    simpa only [Element.MeetsPolygons] using
      ⟨Or.inl trivial, Element.meetsRings_any p, Element.meetsPolygons_any ps⟩

theorem Body.meets_any : ∀ b : Body, b.Meets .any
  | .empty => by simp only [Body.Meets]
  | .point x y => by simpa only [Body.Meets] using ⟨Expr.meets_any x, Expr.meets_any y⟩
  | .elements items => by simpa only [Body.Meets] using Element.meetsAll_any items
  | .rings rs => by simpa only [Body.Meets] using Element.meetsRings_any rs
  | .polygons ps => by simpa only [Body.Meets] using Element.meetsPolygons_any ps

end

theorem Expr.position_placed (f : Position → Position) :
    ∀ e : Expr, (e.placed f).position = f e.position
  | .number _ _ | .bool _ _ | .ident _ _ | .typeTag _ _ | .decl _ _ _ | .seq _ _
  | .geometry _ _ _ | .function _ _ _ | .generate _ _ _ | .cond _ _ _ _ | .not _ _
  | .neg _ _ => by simp only [Expr.placed, Expr.position]
  | .call callee _ => by simp only [Expr.placed, Expr.position, Expr.position_placed f callee]
  | .access target _ _ => by simp only [Expr.placed, Expr.position, Expr.position_placed f target]
  | .binary _ left _ => by simp only [Expr.placed, Expr.position, Expr.position_placed f left]

namespace Correspondence

variable {σ τ : Type} {C : Correspondence σ τ}

/-- The operations of two machines go together from `w` on, for programs that meet the terms; the
second machine walks over them with their places changed. -/
structure Serves (C : Correspondence σ τ) (w : C.World) (T : Terms) (f : Position → Position)
    (M : Machine σ) (N : Machine τ) : Prop where
  lines (p : Position) : C.Lines p.line (f p).line
  hollow : C.strict → ¬ T.hollow
  resolve {name : String} {l l' : Nat} : T.name name → C.Lines l l' →
    C.Together w C.Values (M.resolve name l) (N.resolve name l')
  declare {w₁ : C.World} {v v' : Value} (name : String) : C.Le w w₁ → C.Values w₁ v v' →
    C.Together w₁ C.Values (M.declare name v) (N.declare name v')
  close {body : Expr} {p : Position} (params : List String) : T.literal p → body.Meets T →
    C.Closures w (M.close params body p) (N.close params (body.placed f) (f p))
  invoke {w₁ : C.World} {c c' : Closure} {vs vs' : List Value} {l l' : Nat} : C.Le w w₁ →
    C.Closures w₁ c c' → C.AllValues w₁ vs vs' → C.Lines l l' →
      C.Together w₁ C.Values (M.invoke c vs l) (N.invoke c' vs' l')
  random : C.Together w C.Equal M.random N.random
  watch {w₁ : C.World} {m : Effect σ Value} {n : Effect τ Value} : C.Le w w₁ →
    C.Together w₁ C.Values m n → C.Together w₁ C.Values (M.watch m) (N.watch n)
  watchCall {w₁ : C.World} {vs vs' : List Value} {m : Effect σ Value} {n : Effect τ Value} :
    C.Le w w₁ → C.AllValues w₁ vs vs' → C.Together w₁ C.Values m n →
      C.Together w₁ C.Values (M.watchCall vs m) (N.watchCall vs' n)

namespace Serves

variable {w : C.World} {T : Terms} {f : Position → Position} {M : Machine σ} {N : Machine τ}
  {u u' v v' : Value} {l l' : Nat}

theorem later {w' : C.World} (hc : C.Serves w T f M N) (hw : C.Le w w') : C.Serves w' T f M N where
  lines := hc.lines
  hollow := hc.hollow
  resolve hn hl := (hc.resolve hn hl).later hw
  declare name h₁ hv := hc.declare name (C.trans hw h₁) hv
  close params hp hb := C.mono hw (hc.close params hp hb)
  invoke h₁ hcc hv hl := hc.invoke (C.trans hw h₁) hcc hv hl
  random := hc.random.later hw
  watch h₁ hm := hc.watch (C.trans hw h₁) hm
  watchCall h₁ hv hm := hc.watchCall (C.trans hw h₁) hv hm

section Calls

variable (hc : C.Serves w T f M N) (hl : C.Lines l l')
include hc

theorem line_placed (e : Expr) : C.Lines e.line (e.placed f).line := by
  rw [Expr.line, Expr.line, Expr.position_placed]
  exact hc.lines e.position

include hl

theorem together_call {vs vs' : List Value} (hv : C.Values w v v') (ha : C.AllValues w vs vs') :
    C.Together w C.Values (M.call v vs l) (N.call v' vs' l') := by
  refine hc.watchCall (C.refl w) ha ?_
  cases hv with
  | closure hcc => exact hc.invoke (C.refl w) hcc ha hl
  | plain hplain =>
    cases v with
    | closure => cases hplain
    | native n => exact together_native hc.random n ha hl
    | _ => exact together_fail _ hl

theorem together_callElement (hv : C.Values w v v') :
    C.Callbacks w (M.callElement v l) (N.callElement v' l') := by
  intro x i hx
  have hone : C.AllValues w [.geometry x] [.geometry x] := .cons (.geometry hx) .nil
  have htwo : C.AllValues w [.geometry x, .number (Float.ofNat i)]
      [.geometry x, .number (Float.ofNat i)] :=
    .cons (.geometry hx) (.cons (.plain rfl fun _ => trivial) .nil)
  cases hv with
  | closure hcc => exact hc.together_call hl (.closure hcc) htwo
  | plain hplain hfilled =>
    have hv := Values.plain (C := C) (w := w) hplain hfilled
    unfold Machine.callElement
    split
    · split
      · exact hc.together_call hl hv htwo
      · exact hc.together_call hl hv hone
    · exact hc.together_call hl hv htwo

theorem together_pipe (kind : PipeKind) (hu : C.Values w u u') (hv : C.Values w v v') :
    C.Together w C.Values (M.pipe kind u v l) (N.pipe kind u' v' l') := by
  have hcall : v'.isCallable = v.isCallable := hv.congr fun v => by cases v <;> rfl
  have htype : v'.typeName = v.typeName := hv.congr fun v => by cases v <;> rfl
  have helement := hc.together_callElement hl hv
  unfold Machine.pipe
  rw [hcall, htype]
  split
  · cases kind with
    | apply => exact hc.together_call hl hv (.cons hu .nil)
    | map => exact together_map hl helement hu
    | filter => exact together_filter hl helement hu
    | deepMap => exact together_deepMap hl helement hu
  · exact together_fail _ hl

theorem together_generate (hu : C.Values w u u') (hv : C.Values w v v') :
    C.Together w C.Values (M.generate u v l) (N.generate u' v' l') := by
  refine Correspondence.together_generate hl hu hv fun w₁ h₁ i => ?_
  exact (hc.later h₁).together_call hl (hv.mono h₁) (.cons (.plain rfl fun _ => trivial) .nil)

end Calls

/-! ## The walk over expressions -/

/-- Two numbers, one after the other, and what is made of them. -/
theorem together_numbers {α : Type} {Q : C.World → α → α → Prop} {x y : Effect σ Value}
    {x' y' : Effect τ Value} {make : Float → Float → α} {k k' : Nat}
    (hx : C.Together w C.Values x x') (hy : C.Together w C.Values y y')
    (hQ : ∀ w₁ a b, Q w₁ (make a b) (make a b)) (hl : C.Lines l l') (hk : C.Lines k k') :
    C.Together w Q
      (do
        let a ← Effect.ofExcept l (← x).asNumber
        let b ← Effect.ofExcept k (← y).asNumber
        return make a b)
      (do
        let a ← Effect.ofExcept l' (← x').asNumber
        let b ← Effect.ofExcept k' (← y').asNumber
        return make a b) := by
  refine together_bind hx fun w₁ h₁ v v' hv => ?_
  refine together_bind (together_equal (hv.congr Value.asNumber_blank) hl) fun w₂ h₂ a a' ha => ?_
  refine together_bind (hy.later (C.trans h₁ h₂)) fun _ _ u u' hu => ?_
  refine together_bind (together_equal (hu.congr Value.asNumber_blank) hk) fun _ _ b b' hb => ?_
  rw [ha.1, hb.1]
  exact together_pure fun w₁ _ => hQ w₁ a b

/-- Two values, one after the other, and an operation that gives no closure. -/
theorem together_operands {x y : Effect σ Value} {x' y' : Effect τ Value}
    {F : Value → Value → Except EvalFault Value} (hx : C.Together w C.Values x x')
    (hy : C.Together w C.Values y y') (hblank : ∀ u v, F u.blank v.blank = F u v)
    (hplain : ∀ u v, Plain (F u v)) (hfilled : ∀ {u v}, u.Filled → v.Filled → GivesFilled (F u v))
    (hl : C.Lines l l') :
    C.Together w C.Values
      (do
        let u ← x
        let v ← y
        Effect.ofExcept l (F u v))
      (do
        let u ← x'
        let v ← y'
        Effect.ofExcept l' (F u v)) := by
  refine together_bind hx fun w₁ h₁ u u' hu => together_bind (hy.later h₁) fun w₂ h₂ v v' hv => ?_
  refine together_plain ?_ (hplain u v) (fun hs => hfilled (hu.filled hs) (hv.filled hs)) hl
  rw [← hblank u', hu.blank, hv.blank, hblank]

mutual

/-- **The walk goes together on two machines**, whatever the expression, as long as it meets the
terms. -/
theorem together_interpret (e : Expr) (w : C.World) (hc : C.Serves w T f M N) (he : e.Meets T) :
    C.Together w C.Values (e.interpret M) ((e.placed f).interpret N) := by
  cases e with
  | number x p | bool b p | typeTag k p =>
    simp only [Expr.placed, Expr.interpret]
    exact hc.watch (C.refl w) (together_pure fun _ _ => .plain rfl fun _ => trivial)
  | ident name p =>
    simp only [Expr.Meets] at he
    simp only [Expr.placed, Expr.interpret]
    exact hc.watch (C.refl w) (hc.resolve he (hc.lines p))
  | function params body p =>
    simp only [Expr.Meets] at he
    simp only [Expr.placed, Expr.interpret]
    refine hc.watch (C.refl w) (together_pure fun w₁ h₁ => .closure ?_)
    exact C.mono h₁ (hc.close params he.1 he.2)
  | decl name value p =>
    simp only [Expr.Meets] at he
    simp only [Expr.placed, Expr.interpret]
    refine hc.watch (C.refl w) (together_bind (together_interpret value w hc he) ?_)
    intro w₁ h₁ v v' hv
    exact hc.declare name h₁ hv
  | seq items p =>
    simp only [Expr.Meets] at he
    simp only [Expr.placed, Expr.interpret]
    exact hc.watch (C.refl w)
      (together_interpretSeq items w hc he (.plain rfl fun _ => trivial))
  | geometry kind body p =>
    simp only [Expr.Meets] at he
    simp only [Expr.placed, Expr.interpret]
    exact hc.watch (C.refl w) (together_body kind body w hc he)
  | call callee args =>
    simp only [Expr.Meets] at he
    simp only [Expr.placed, Expr.interpret]
    refine hc.watch (C.refl w) (together_bind (together_interpret callee w hc he.1) ?_)
    intro w₁ h₁ g g' hg
    refine together_bind (together_interpretAll args w₁ (hc.later h₁) he.2 .nil) ?_
    intro w₂ h₂ vs vs' hvs
    exact (hc.later (C.trans h₁ h₂)).together_call (hc.line_placed callee) (hg.mono h₂) hvs
  | access target property args =>
    simp only [Expr.Meets] at he
    simp only [Expr.placed, Expr.interpret]
    refine hc.watch (C.refl w) (together_bind (together_interpret target w hc he.1) ?_)
    intro w₁ h₁ v v' hv
    refine together_bind (together_interpretAll args w₁ (hc.later h₁) he.2 .nil) ?_
    intro w₂ h₂ vs vs' hvs
    refine together_plain ?_ (Value.plain_access v property vs)
      (fun hs => Value.givesFilled_access (hv.filled hs) property vs) (hc.line_placed target)
    rw [← Value.access_blank v', hv.blank, hvs.blank, Value.access_blank]
  | binary op left right =>
    simp only [Expr.Meets] at he
    have hl := together_interpret left w hc he.1
    have hr := together_interpret right w hc he.2
    have hline := hc.line_placed left
    cases op with
    | logic op =>
      simp only [Expr.placed, Expr.interpret]
      refine hc.watch (C.refl w) (together_bind hl fun w₁ h₁ u u' hu => ?_)
      refine together_bind (together_equal (hu.congr Value.asBool_blank) hline) ?_
      intro w₂ h₂ a a' ha
      refine together_bind (hr.later (C.trans h₁ h₂)) fun _ _ v v' hv => ?_
      refine together_bind (together_equal (hv.congr Value.asBool_blank) hline) ?_
      intro _ _ b b' hb
      rw [ha.1, hb.1]
      exact together_pure fun _ _ => .plain rfl fun _ => trivial
    | equality negated =>
      simp only [Expr.placed, Expr.interpret]
      refine hc.watch (C.refl w) (together_bind hl fun w₁ h₁ u u' hu => ?_)
      refine together_bind (hr.later h₁) fun w₂ h₂ v v' hv => ?_
      rw [(hu.mono h₂).beq hv]
      exact together_pure fun _ _ => .plain rfl fun _ => trivial
    | compare op =>
      simp only [Expr.placed, Expr.interpret]
      exact hc.watch (C.refl w) (together_operands hl hr (Value.compare_blank op)
        (Value.plain_compare op) (fun _ _ => Value.givesFilled_compare op _ _) hline)
    | pipe kind =>
      -- The function is evaluated before the source.
      simp only [Expr.placed, Expr.interpret]
      refine hc.watch (C.refl w) (together_bind hr fun w₁ h₁ g g' hg => ?_)
      refine together_bind (hl.later h₁) fun w₂ h₂ v v' hv => ?_
      exact (hc.later (C.trans h₁ h₂)).together_pipe hline kind hv (hg.mono h₂)
    | concat =>
      simp only [Expr.placed, Expr.interpret]
      exact hc.watch (C.refl w) (together_operands hl hr Value.concat_blank Value.plain_concat
        Value.givesFilled_concat hline)
    | arith op =>
      simp only [Expr.placed, Expr.interpret]
      exact hc.watch (C.refl w) (together_operands hl hr (Value.arith_blank op)
        (Value.plain_arith op) (Value.givesFilled_arith op) hline)
  | generate count body p =>
    simp only [Expr.Meets] at he
    simp only [Expr.placed, Expr.interpret]
    refine hc.watch (C.refl w) (together_bind (together_interpret count w hc he.1) ?_)
    intro w₁ h₁ n n' hn
    refine together_bind (together_interpret body w₁ (hc.later h₁) he.2) fun w₂ h₂ v v' hv => ?_
    exact (hc.later (C.trans h₁ h₂)).together_generate (hc.lines p) (hn.mono h₂) hv
  | cond condition thenBranch elseBranch p =>
    simp only [Expr.Meets] at he
    simp only [Expr.placed, Expr.interpret]
    refine hc.watch (C.refl w) (together_bind (together_interpret condition w hc he.1) ?_)
    intro w₁ h₁ v v' hv
    refine together_bind (together_equal (hv.congr Value.asBool_blank) (hc.lines p)) ?_
    intro w₂ h₂ b b' hb
    have hc₂ := hc.later (C.trans h₁ h₂)
    rw [hb.1]
    cases b with
    | true => exact together_interpret thenBranch w₂ hc₂ he.2.1
    | false => exact together_interpret elseBranch w₂ hc₂ he.2.2
  | not operand p =>
    simp only [Expr.Meets] at he
    simp only [Expr.placed, Expr.interpret]
    refine hc.watch (C.refl w) (together_bind (together_interpret operand w hc he) ?_)
    intro w₁ h₁ v v' hv
    refine together_bind (together_equal (hv.congr Value.asBool_blank) (hc.lines p)) ?_
    intro _ _ b b' hb
    rw [hb.1]
    exact together_pure fun _ _ => .plain rfl fun _ => trivial
  | neg operand p =>
    simp only [Expr.Meets] at he
    simp only [Expr.placed, Expr.interpret]
    refine hc.watch (C.refl w) (together_bind (together_interpret operand w hc he) ?_)
    intro w₁ h₁ v v' hv
    refine together_plain ?_ (Value.plain_arith .sub (.number 0) v)
      (fun hs => Value.givesFilled_arith .sub trivial (hv.filled hs)) (hc.lines p)
    exact hv.congr fun v => Value.arith_blank .sub (.number 0) v

theorem together_interpretSeq (es : List Expr) (w : C.World) (hc : C.Serves w T f M N)
    (he : Expr.MeetsAll T es) {last last' : Value} (hv : C.Values w last last') :
    C.Together w C.Values (Expr.interpretSeq M es last)
      (Expr.interpretSeq N (Expr.placedAll f es) last') := by
  cases es with
  | nil =>
    simp only [Expr.placedAll, Expr.interpretSeq]
    exact together_pure fun _ h₁ => hv.mono h₁
  | cons e es =>
    simp only [Expr.MeetsAll] at he
    simp only [Expr.placedAll, Expr.interpretSeq]
    refine together_bind (together_interpret e w hc he.1) fun w₁ h₁ u u' hu => ?_
    exact together_interpretSeq es w₁ (hc.later h₁) he.2 hu

theorem together_interpretAll (es : List Expr) (w : C.World) (hc : C.Serves w T f M N)
    (he : Expr.MeetsAll T es) {done done' : List Value} (hd : C.AllValues w done done') :
    C.Together w C.AllValues (Expr.interpretAll M es done)
      (Expr.interpretAll N (Expr.placedAll f es) done') := by
  cases es with
  | nil =>
    simp only [Expr.placedAll, Expr.interpretAll]
    exact together_pure fun _ h₁ => (hd.mono h₁).reverse
  | cons e es =>
    simp only [Expr.MeetsAll] at he
    simp only [Expr.placedAll, Expr.interpretAll]
    refine together_bind (together_interpret e w hc he.1) fun w₁ h₁ u u' hu => ?_
    exact together_interpretAll es w₁ (hc.later h₁) he.2 (.cons hu (hd.mono h₁))

theorem together_coord (e : Element) (w : C.World) (hc : C.Serves w T f M N) (he : e.Meets T) :
    C.Together w C.Equal (e.coordOn M) ((e.placed f).coordOn N) := by
  cases e with
  | pair x y =>
    simp only [Element.Meets] at he
    simp only [Element.placed, Element.coordOn]
    exact together_numbers (together_interpret x w hc he.1) (together_interpret y w hc he.2)
      (fun _ _ _ => ⟨rfl, trivial⟩) (hc.line_placed x) (hc.line_placed y)
  | value e =>
    simp only [Element.Meets] at he
    simp only [Element.placed, Element.coordOn]
    refine together_bind (together_interpret e w hc he) fun _ _ v v' hv => ?_
    exact together_equal (hv.congr Value.asListPoint_blank) (hc.line_placed e)

theorem together_member (e : Element) (w : C.World) (hc : C.Serves w T f M N) (he : e.Meets T) :
    C.Together w (C.Same fun g => C.strict → g.Filled) (e.memberOn M)
      ((e.placed f).memberOn N) := by
  cases e with
  | pair x y =>
    simp only [Element.Meets] at he
    simp only [Element.placed, Element.memberOn]
    exact together_numbers (together_interpret x w hc he.1) (together_interpret y w hc he.2)
      (fun _ _ _ => ⟨rfl, fun _ => by trivial⟩) (hc.line_placed x) (hc.line_placed y)
  | value e =>
    simp only [Element.Meets] at he
    simp only [Element.placed, Element.memberOn]
    refine together_bind (together_interpret e w hc he) fun _ _ v v' hv => ?_
    refine together_ofExcept (hv.congr Value.asMember_blank) (fun g hg hs => ?_)
      (hc.line_placed e)
    have hfilled := hv.filled hs
    cases v with
    | geometry x =>
      obtain rfl := Except.ok.inj hg
      exact hfilled
    | _ => cases hg

/-- As many coordinates as there are elements, after those that are done. -/
theorem together_coords (es : List Element) (w : C.World) (hc : C.Serves w T f M N)
    (he : Element.MeetsAll T es) (done : List Coord) :
    C.Together w (C.Same fun cs => cs.length = done.length + es.length)
      (Element.coordsOn M es done) (Element.coordsOn N (Element.placedAll f es) done) := by
  cases es with
  | nil =>
    simp only [Element.placedAll, Element.coordsOn]
    exact together_pure fun _ _ => ⟨rfl, by simp⟩
  | cons e es =>
    simp only [Element.MeetsAll] at he
    simp only [Element.placedAll, Element.coordsOn]
    refine together_bind (together_coord e w hc he.1) fun w₁ h₁ c c' hcc => ?_
    rw [hcc.1]
    refine (together_coords es w₁ (hc.later h₁) he.2 (c :: done)).imp ?_
    rintro _ cs _ ⟨rfl, hlen⟩
    refine ⟨rfl, ?_⟩
    simp only [List.length_cons] at hlen ⊢
    omega

theorem together_members (es : List Element) (w : C.World) (hc : C.Serves w T f M N)
    (he : Element.MeetsAll T es) (done : List Geometry)
    (hd : ∀ g ∈ done, C.strict → g.Filled) :
    C.Together w (C.Same fun gs => ∀ g ∈ gs, C.strict → g.Filled)
      (Element.membersOn M es done) (Element.membersOn N (Element.placedAll f es) done) := by
  cases es with
  | nil =>
    simp only [Element.placedAll, Element.membersOn]
    exact together_pure fun _ _ => ⟨rfl, by simpa using hd⟩
  | cons e es =>
    simp only [Element.MeetsAll] at he
    simp only [Element.placedAll, Element.membersOn]
    refine together_bind (together_member e w hc he.1) fun w₁ h₁ g g' hg => ?_
    obtain ⟨rfl, hg⟩ := hg
    exact together_members es w₁ (hc.later h₁) he.2 _ (List.forall_mem_cons.2 ⟨hg, hd⟩)

/-- Rings with coordinates, and as many as are written. -/
theorem together_rings (rs : List (List Element)) (w : C.World) (hc : C.Serves w T f M N)
    (he : Element.MeetsRings T rs) (done : List (List Coord))
    (hd : C.strict → ∀ r ∈ done, r ≠ []) :
    C.Together w
      (C.Same fun rs' => rs'.length = done.length + rs.length ∧ (C.strict → ∀ r ∈ rs', r ≠ []))
      (Element.ringsOn M rs done) (Element.ringsOn N (Element.placedRings f rs) done) := by
  cases rs with
  | nil =>
    simp only [Element.placedRings, Element.ringsOn]
    exact together_pure fun _ _ => ⟨rfl, by simp, by simpa using hd⟩
  | cons r rs =>
    simp only [Element.MeetsRings] at he
    simp only [Element.placedRings, Element.ringsOn]
    refine together_bind (together_coords r w hc he.2.1 []) fun w₁ h₁ cs cs' hcs => ?_
    obtain ⟨rfl, hlen⟩ := hcs
    have hne : C.strict → cs' ≠ [] := by
      intro hs hnil
      have hr := he.1.resolve_left (hc.hollow hs)
      rw [hnil] at hlen
      exact hr (List.length_eq_zero_iff.1 (by simpa using hlen.symm))
    refine (together_rings rs w₁ (hc.later h₁) he.2.2 (cs' :: done)
      fun hs => List.forall_mem_cons.2 ⟨hne hs, hd hs⟩).imp ?_
    rintro _ rs' _ ⟨rfl, hcount, hfilled⟩
    refine ⟨rfl, ?_, hfilled⟩
    simp only [List.length_cons] at hcount ⊢
    omega

theorem together_polygons (ps : List (List (List Element))) (w : C.World)
    (hc : C.Serves w T f M N) (he : Element.MeetsPolygons T ps) (done : List (List (List Coord)))
    (hd : C.strict → ∀ p ∈ done, p ≠ [] ∧ ∀ r ∈ p, r ≠ []) :
    C.Together w (C.Same fun ps' => C.strict → ∀ p ∈ ps', p ≠ [] ∧ ∀ r ∈ p, r ≠ [])
      (Element.polygonsOn M ps done) (Element.polygonsOn N (Element.placedPolygons f ps) done) := by
  cases ps with
  | nil =>
    simp only [Element.placedPolygons, Element.polygonsOn]
    exact together_pure fun _ _ => ⟨rfl, by simpa using hd⟩
  | cons p ps =>
    simp only [Element.MeetsPolygons] at he
    simp only [Element.placedPolygons, Element.polygonsOn]
    refine together_bind (together_rings p w hc he.2.1 [] (by simp)) fun w₁ h₁ rs rs' hrs => ?_
    obtain ⟨rfl, hlen, hfilled⟩ := hrs
    have hne : C.strict → rs' ≠ [] := by
      intro hs hnil
      have hp := he.1.resolve_left (hc.hollow hs)
      rw [hnil] at hlen
      exact hp (List.length_eq_zero_iff.1 (by simpa using hlen.symm))
    exact together_polygons ps w₁ (hc.later h₁) he.2.2 (rs' :: done)
      fun hs => List.forall_mem_cons.2 ⟨⟨hne hs, hfilled hs⟩, hd hs⟩

theorem together_body (kind : Geometry.Kind) (body : Body) (w : C.World)
    (hc : C.Serves w T f M N) (he : body.Meets T) :
    C.Together w C.Values (body.interpret M kind) ((body.placed f).interpret N kind) := by
  cases body with
  | empty =>
    simp only [Body.placed, Body.interpret]
    cases kind <;> exact together_pure fun _ _ => .plain rfl fun _ => by
      simp [Value.Filled, Geometry.Filled]
  | point x y =>
    simp only [Body.Meets] at he
    simp only [Body.placed, Body.interpret]
    exact together_numbers (together_interpret x w hc he.1) (together_interpret y w hc he.2)
      (fun _ _ _ => .geometry fun _ => by trivial) (hc.line_placed x) (hc.line_placed y)
  | elements items =>
    simp only [Body.Meets] at he
    cases kind with
    | collection =>
      simp only [Body.placed, Body.interpret]
      refine together_bind (together_members items w hc he [] (by simp)) fun _ _ _ _ hg => ?_
      obtain ⟨rfl, hg⟩ := hg
      refine together_pure fun _ _ => .geometry fun hs => ?_
      simp only [Geometry.Filled, Geometry.filledMembers_iff]
      exact fun g hmem => hg g hmem hs
    | _ =>
      simp only [Body.placed, Body.interpret]
      refine together_bind (together_coords items w hc he []) fun _ _ _ _ hcs => ?_
      exact together_pure fun _ _ => hcs.1 ▸ .geometry fun _ => trivial
  | rings rs =>
    simp only [Body.Meets] at he
    cases kind <;>
    · simp only [Body.placed, Body.interpret]
      refine together_bind (together_rings rs w hc he [] (by simp)) fun _ _ _ _ hrs => ?_
      obtain ⟨rfl, -, hrs⟩ := hrs
      exact together_pure fun _ _ => .geometry hrs
  | polygons ps =>
    simp only [Body.Meets] at he
    simp only [Body.placed, Body.interpret]
    refine together_bind (together_polygons ps w hc he [] (by simp)) fun _ _ _ _ hps => ?_
    obtain ⟨rfl, hps⟩ := hps
    exact together_pure fun _ _ => .geometry hps

end

end Serves

end Correspondence

end GeoScript
