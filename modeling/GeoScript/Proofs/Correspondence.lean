import GeoScript.Proofs.Blank
import GeoScript.Proofs.Filled
import GeoScript.Proofs.Machines
import GeoScript.Proofs.Operations
import Mathlib.Data.List.Forall2

/-!
# Two machines side by side

**Correspondences.** Two machines need not have the same state, nor make the same closures. A
correspondence says which states belong together and which closures do, in a world that grows as the
machines go on. Values belong together if they are closures that do, or equal. Errors have the same
cause; their lines may differ if the correspondence says so. The comparison ends at an error that is
a *cut*: nothing is said of the second machine then.

**Later worlds** are of two kinds. What belongs together does so in every world as late as the first
(`Le`). From the beginning to the end of a step the world changes in a way that may say more
(`Ran`), such as that whatever was opened in between has been closed.

**What operations see.** No operation looks into a closure, so operations on values that belong
together have the same outcome. A *strict* correspondence says in addition that all geometries are
filled.

This file carries correspondences through sequencing, through pipelines and through the libraries.
The walk over expressions is in `GeoScript.Proofs.Interpretation`.
-/

namespace GeoScript

attribute [ext] EvalError

/-- A way to compare the runs of two machines. -/
structure Correspondence (σ τ : Type) where
  World : Type
  /-- The second world is as late as the first. -/
  Le : World → World → Prop
  trans {a b c : World} : Le a b → Le b c → Le a c
  /-- A step may begin in the first world and end in the second. -/
  Ran : World → World → Prop
  ran_refl (w : World) : Ran w w
  ran_trans {a b c : World} : Ran a b → Ran b c → Ran a c
  le_of_ran {a b : World} : Ran a b → Le a b
  /-- The states that belong together. -/
  Holds : World → σ → τ → Prop
  /-- The closures that belong together. -/
  Closures : World → Closure → Closure → Prop
  mono {v w : World} {c c' : Closure} : Le v w → Closures v c c' → Closures w c c'
  beq {w : World} {c c' d d' : Closure} :
    Closures w c c' → Closures w d d' → (c' == d') = (c == d)
  /-- The lines at which the two machines may report the same error. -/
  Lines : Nat → Nat → Prop
  /-- The errors of the first machine that end the comparison. -/
  Cut : EvalError → Prop
  /-- Whether all geometries are filled. -/
  strict : Prop

namespace Correspondence

variable {σ τ α β γ δ : Type} (C : Correspondence σ τ)

theorem refl (w : C.World) : C.Le w w := C.le_of_ran (C.ran_refl w)

/-- The values that belong together. -/
inductive Values (w : C.World) : Value → Value → Prop
  | closure {c c' : Closure} : C.Closures w c c' → Values w (.closure c) (.closure c')
  | plain {v : Value} : v.isClosure = false → (C.strict → v.Filled) → Values w v v

/-- How the two machines may end: with results that belong together, with the same error, or the
first of them with an error that ends the comparison. -/
inductive Ends (w : C.World) (Q : C.World → α → β → Prop) :
    Except EvalError α × σ → Except EvalError β × τ → Prop
  | ok {w₁ : C.World} {a : α} {b : β} {s : σ} {t : τ} : C.Ran w w₁ → C.Holds w₁ s t → Q w₁ a b →
    Ends w Q (.ok a, s) (.ok b, t)
  | error {w₁ : C.World} {e e' : EvalError} {s : σ} {t : τ} : C.Ran w w₁ → C.Holds w₁ s t →
    e'.fault = e.fault → C.Lines e.line e'.line → Ends w Q (.error e, s) (.error e', t)
  | cut {e : EvalError} {s : σ} {r : Except EvalError β × τ} : C.Cut e → Ends w Q (.error e, s) r

/-- From states that belong together in a world as late as `w`, the two steps end alike. -/
def Together (w : C.World) (Q : C.World → α → β → Prop) (m : Effect σ α) (n : Effect τ β) : Prop :=
  ∀ w₁, C.Le w w₁ → ∀ s t, C.Holds w₁ s t → C.Ends w₁ Q (m.runOn s) (n.runOn t)

/-- The same result, with a property. -/
def Same (P : α → Prop) : C.World → α → α → Prop := fun _ a b => b = a ∧ P a

/-- The same result. -/
abbrev Equal : C.World → α → α → Prop := C.Same fun _ => True

variable {C} {w w' : C.World} {u u' v v' : Value} {l l' : Nat}

/-! ## Values -/

namespace Values

theorem mono (hv : C.Values w v v') (hw : C.Le w w') : C.Values w' v v' := by
  cases hv with
  | closure hc => exact .closure (C.mono hw hc)
  | plain hv hfilled => exact .plain hv hfilled

theorem blank (hv : C.Values w v v') : v'.blank = v.blank := by
  cases hv <;> rfl

/-- What does not look into closures does not tell the values apart. -/
theorem congr {F : Value → α} (hF : ∀ v, F v.blank = F v) (hv : C.Values w v v') : F v' = F v := by
  rw [← hF v', hv.blank, hF]

theorem filled (hv : C.Values w v v') (hs : C.strict) : v.Filled := by
  cases hv with
  | closure => trivial
  | plain _ hfilled => exact hfilled hs

theorem geometry {g : Geometry} (hg : C.strict → g.Filled) :
    C.Values w (.geometry g) (.geometry g) :=
  .plain rfl hg

/-- Equality does not tell the values apart. -/
theorem beq (hu : C.Values w u u') (hv : C.Values w v v') : (u' == v') = (u == v) := by
  cases hu with
  | closure hc =>
    cases hv with
    | closure hd => exact C.beq hc hd
    | plain hplain =>
      cases v with
      | closure => cases hplain
      | _ => rfl
  | plain hplain =>
    cases hv with
    | closure hd =>
      cases u with
      | closure => cases hplain
      | _ => rfl
    | plain => rfl

end Values

/-- Lists of values that belong together one by one. -/
def AllValues (w : C.World) (vs vs' : List Value) : Prop := List.Forall₂ (C.Values w) vs vs'

namespace AllValues

variable {vs vs' : List Value}

theorem mono (hv : C.AllValues w vs vs') (hw : C.Le w w') : C.AllValues w' vs vs' :=
  hv.imp fun _ _ h => h.mono hw

theorem blank (hv : C.AllValues w vs vs') : vs'.map Value.blank = vs.map Value.blank := by
  induction hv with
  | nil => rfl
  | cons h _ ih => rw [List.map_cons, List.map_cons, h.blank, ih]

theorem filled (hv : C.AllValues w vs vs') (hs : C.strict) : ∀ v ∈ vs, v.Filled := by
  induction hv with
  | nil => simp
  | cons h _ ih => exact List.forall_mem_cons.2 ⟨h.filled hs, ih⟩

theorem length_eq (hv : C.AllValues w vs vs') : vs'.length = vs.length :=
  (List.Forall₂.length_eq hv).symm

theorem reverse (hv : C.AllValues w vs vs') : C.AllValues w vs.reverse vs'.reverse :=
  List.forall₂_reverse_iff.2 hv

end AllValues

/-! ## Sequencing -/

section Steps

variable {Q : C.World → α → β → Prop} {R : C.World → γ → δ → Prop}

theorem Ends.after {r : Except EvalError α × σ} {r' : Except EvalError β × τ} (hw : C.Ran w w')
    (h : C.Ends w' Q r r') : C.Ends w Q r r' := by
  cases h with
  | ok h₁ hs hq => exact .ok (C.ran_trans hw h₁) hs hq
  | error h₁ hs hfault hlines => exact .error (C.ran_trans hw h₁) hs hfault hlines
  | cut hcut => exact .cut hcut

theorem Together.later {m : Effect σ α} {n : Effect τ β} (h : C.Together w Q m n)
    (hw : C.Le w w') : C.Together w' Q m n :=
  fun w₁ h₁ => h w₁ (C.trans hw h₁)

theorem Together.imp {Q' : C.World → α → β → Prop} {m : Effect σ α} {n : Effect τ β}
    (h : C.Together w Q m n) (hQ : ∀ w₁ a b, Q w₁ a b → Q' w₁ a b) : C.Together w Q' m n := by
  intro w₁ h₁ s t hst
  have hends := h w₁ h₁ s t hst
  generalize m.runOn s = r at hends ⊢
  generalize n.runOn t = r' at hends ⊢
  cases hends with
  | ok h₂ hs hq => exact .ok h₂ hs (hQ _ _ _ hq)
  | error h₂ hs hfault hlines => exact .error h₂ hs hfault hlines
  | cut hcut => exact .cut hcut

theorem together_pure {a : α} {b : β} (hab : ∀ w₁, C.Le w w₁ → Q w₁ a b) :
    C.Together w Q (pure a) (pure b) :=
  fun w₁ h₁ _ _ hst => .ok (C.ran_refl w₁) hst (hab w₁ h₁)

theorem together_fail (fault : EvalFault) (hl : C.Lines l l') :
    C.Together w Q (Effect.fail fault l) (Effect.fail fault l') :=
  fun w₁ _ _ _ hst => .error (C.ran_refl w₁) hst rfl hl

theorem together_bind {m : Effect σ α} {n : Effect τ β} {f : α → Effect σ γ} {g : β → Effect τ δ}
    (hm : C.Together w Q m n)
    (hf : ∀ w₁, C.Le w w₁ → ∀ a b, Q w₁ a b → C.Together w₁ R (f a) (g b)) :
    C.Together w R (m >>= f) (n >>= g) := by
  intro w₁ h₁ s t hst
  have hends := hm w₁ h₁ s t hst
  rw [Effect.runOn_bind, Effect.runOn_bind]
  generalize m.runOn s = r at hends ⊢
  generalize n.runOn t = r' at hends ⊢
  cases hends with
  | ok h₂ hs hq =>
    exact (hf _ (C.trans h₁ (C.le_of_ran h₂)) _ _ hq _ (C.refl _) _ _ hs).after h₂
  | error h₂ hs hfault hlines => exact .error h₂ hs hfault hlines
  | cut hcut => exact .cut hcut

/-- A computation without effects that gives the same on both sides. -/
theorem together_ofExcept {P : α → Prop} {x x' : Except EvalFault α} (hx : x' = x)
    (hP : ∀ a, x = .ok a → P a) (hl : C.Lines l l') :
    C.Together w (C.Same P) (Effect.ofExcept l x) (Effect.ofExcept l' x') := by
  subst hx
  cases x' with
  | ok a => exact together_pure fun _ _ => ⟨rfl, hP a rfl⟩
  | error fault => exact together_fail fault hl

theorem together_equal {x x' : Except EvalFault α} (hx : x' = x) (hl : C.Lines l l') :
    C.Together w C.Equal (Effect.ofExcept l x) (Effect.ofExcept l' x') :=
  together_ofExcept hx (fun _ _ => trivial) hl

/-- An operation that gives no closure. -/
theorem together_plain {x x' : Except EvalFault Value} (hx : x' = x) (hplain : Plain x)
    (hfilled : C.strict → GivesFilled x) (hl : C.Lines l l') :
    C.Together w C.Values (Effect.ofExcept l x) (Effect.ofExcept l' x') := by
  refine (together_ofExcept hx (P := fun v => v.isClosure = false ∧ (C.strict → v.Filled))
    (fun v hv => ⟨hplain v hv, fun hs => hfilled hs v hv⟩) hl).imp ?_
  rintro w₁ v _ ⟨rfl, hplain, hfilled⟩
  exact .plain hplain hfilled

end Steps

/-! ## Pipelines

A pipeline hands over elements, which are geometries, and makes a geometry of what it gets back. -/

section Pipelines

open Pipeline

/-- The callbacks end alike on elements. -/
def Callbacks (w : C.World) (f : Callback σ) (g : Callback τ) : Prop :=
  ∀ x i, (C.strict → x.Filled) →
    C.Together w C.Values (f (.geometry x) i) (g (.geometry x) i)

theorem Callbacks.later {f : Callback σ} {g : Callback τ} (h : C.Callbacks w f g)
    (hw : C.Le w w') : C.Callbacks w' f g :=
  fun x i hx => (h x i hx).later hw

section Lists

variable {P : γ → Prop} {R : α → Prop}

theorem together_mapFrom {F : γ → Nat → Effect σ α} {G : γ → Nat → Effect τ α}
    (h : ∀ a i, P a → C.Together w (C.Same R) (F a i) (G a i)) (i : Nat) (as : List γ)
    (done : List α) (has : ∀ a ∈ as, P a) (hdone : ∀ b ∈ done, R b) :
    C.Together w (C.Same fun bs => ∀ b ∈ bs, R b) (mapFrom F i as done) (mapFrom G i as done) := by
  induction as generalizing w i done with
  | nil => exact together_pure fun _ _ => ⟨rfl, by simpa using hdone⟩
  | cons a as ih =>
    obtain ⟨ha, has⟩ := List.forall_mem_cons.1 has
    refine together_bind (h a i ha) fun w₁ h₁ b b' hb => ?_
    obtain ⟨rfl, hb⟩ := hb
    exact ih (fun a i ha => (h a i ha).later h₁) (i + 1) _ has (List.forall_mem_cons.2 ⟨hb, hdone⟩)

theorem together_filterFrom {test : γ → Nat → Effect σ Bool} {test' : γ → Nat → Effect τ Bool}
    (h : ∀ a i, P a → C.Together w C.Equal (test a i) (test' a i)) (i : Nat) (as done : List γ)
    (has : ∀ a ∈ as, P a) (hdone : ∀ a ∈ done, P a) :
    C.Together w (C.Same fun bs => ∀ b ∈ bs, P b) (filterFrom test i as done)
      (filterFrom test' i as done) := by
  induction as generalizing w i done with
  | nil => exact together_pure fun _ _ => ⟨rfl, by simpa using hdone⟩
  | cons a as ih =>
    obtain ⟨ha, has⟩ := List.forall_mem_cons.1 has
    refine together_bind (h a i ha) fun w₁ h₁ b b' hb => ?_
    obtain ⟨rfl, -⟩ := hb
    have htest := fun a i ha => (h a i ha).later h₁
    cases b' with
    | true => exact ih htest (i + 1) _ has (List.forall_mem_cons.2 ⟨ha, hdone⟩)
    | false => exact ih htest (i + 1) _ has hdone

end Lists

variable {f : Callback σ} {g : Callback τ}

theorem together_resultPoint (hl : C.Lines l l') (hv : C.Values w v v') :
    C.Together w C.Equal (resultPoint l v) (resultPoint l' v') := by
  cases hv with
  | closure => exact together_fail _ hl
  | plain =>
    unfold resultPoint
    split
    · exact together_pure fun _ _ => ⟨rfl, trivial⟩
    · exact together_fail _ hl

theorem together_resultGeometry (hl : C.Lines l l') (hv : C.Values w v v') :
    C.Together w (C.Same fun x => C.strict → x.Filled) (resultGeometry l v)
      (resultGeometry l' v') := by
  cases hv with
  | closure => exact together_fail _ hl
  | plain _ hfilled =>
    unfold resultGeometry
    split
    · exact together_pure fun _ _ => ⟨rfl, hfilled⟩
    · exact together_fail _ hl

variable (hl : C.Lines l l') (hfg : C.Callbacks w f g)
include hl hfg

theorem together_mapCoord (c : Coord) (i : Nat) :
    C.Together w C.Equal (mapCoord l f c i) (mapCoord l' g c i) :=
  together_bind (hfg _ i fun _ => by trivial) fun _ _ _ _ hv => together_resultPoint hl hv

theorem together_mapMember (x : Geometry) (i : Nat) (hx : C.strict → x.Filled) :
    C.Together w (C.Same fun x => C.strict → x.Filled) (mapMember l f x i) (mapMember l' g x i) :=
  together_bind (hfg x i hx) fun _ _ _ _ hv => together_resultGeometry hl hv

theorem together_keeps {P : γ → Prop} (wrap : γ → Geometry)
    (hwrap : ∀ a, P a → C.strict → (wrap a).Filled) (a : γ) (i : Nat) (ha : P a) :
    C.Together w C.Equal (keeps l f (fun a => .geometry (wrap a)) a i)
      (keeps l' g (fun a => .geometry (wrap a)) a i) :=
  together_bind (hfg _ i (hwrap a ha)) fun _ _ _ _ hv =>
    together_equal (hv.congr Value.asBool_blank) hl

theorem together_map (hv : C.Values w v v') :
    C.Together w C.Values (Pipeline.map l f v) (Pipeline.map l' g v') := by
  have hcoords : ∀ cs, C.Together w (C.Same fun _ => ∀ b ∈ cs, True)
      (mapFrom (mapCoord l f) 0 cs []) (mapFrom (mapCoord l' g) 0 cs []) := by
    intro cs
    refine (together_mapFrom (P := fun _ => True) (fun c i _ => together_mapCoord hl hfg c i) 0 cs
      [] (by simp) (by simp)).imp ?_
    exact fun _ _ _ h => ⟨h.1, by simp⟩
  cases hv with
  | closure => exact together_fail _ hl
  | plain _ hfilled =>
    unfold Pipeline.map
    split
    · refine together_bind (hcoords _) fun _ _ _ _ h => together_pure fun _ _ => ?_
      exact h.1 ▸ .geometry fun _ => trivial
    · refine together_bind (hcoords _) fun _ _ _ _ h => together_pure fun _ _ => ?_
      exact h.1 ▸ .geometry fun _ => trivial
    · refine together_bind (together_mapFrom (fun x i hx => together_mapMember hl hfg x i hx) 0 _ []
        ?_ (by simp)) fun _ _ _ _ h => together_pure fun _ _ => ?_
      · intro x hx hs
        have hmembers := hfilled hs
        simp only [Value.Filled, Geometry.Filled, Geometry.filledMembers_iff] at hmembers
        exact hmembers x hx
      · obtain ⟨rfl, h⟩ := h
        refine .geometry fun hs => ?_
        simp only [Geometry.Filled, Geometry.filledMembers_iff]
        exact fun x hx => h x hx hs
    · exact together_fail _ hl

theorem together_filter (hv : C.Values w v v') :
    C.Together w C.Values (Pipeline.filter l f v) (Pipeline.filter l' g v') := by
  have hpoints := together_filterFrom (P := fun _ => True)
    (together_keeps hl hfg Geometry.point fun _ _ _ => by trivial)
  cases hv with
  | closure => exact together_fail _ hl
  | plain _ hfilled =>
    unfold Pipeline.filter
    split
    · refine together_bind (hpoints 0 _ [] (by simp) (by simp)) fun _ _ _ _ h => ?_
      exact together_pure fun _ _ => h.1 ▸ .geometry fun _ => trivial
    · refine together_bind (hpoints 0 _ [] (by simp) (by simp)) fun _ _ _ _ h => ?_
      exact together_pure fun _ _ => h.1 ▸ .geometry fun _ => trivial
    · refine together_bind (together_filterFrom (P := fun x => C.strict → x.Filled)
        (together_keeps hl hfg id fun _ hx => hx) 0 _ [] ?_ (by simp)) fun _ _ _ _ h => ?_
      · intro x hx hs
        have hmembers := hfilled hs
        simp only [Value.Filled, Geometry.Filled, Geometry.filledMembers_iff] at hmembers
        exact hmembers x hx
      · obtain ⟨rfl, h⟩ := h
        refine together_pure fun _ _ => .geometry fun hs => ?_
        simp only [Geometry.Filled, Geometry.filledMembers_iff]
        exact fun x hx => h x hx hs
    · exact together_fail _ hl

omit hl hfg

/-! ### Walks that count -/

/-- Walks that count what they visit end alike, whatever they have counted before. -/
def Counted (w : C.World) (P : α → Prop) (m : StateT Nat (Effect σ) α)
    (n : StateT Nat (Effect τ) α) : Prop :=
  ∀ i, C.Together w (C.Same fun p : α × Nat => P p.1) (m.run i) (n.run i)

section Walks

variable {P : α → Prop} {R : β → Prop}

theorem counted_pure {a : α} (ha : P a) :
    C.Counted w P (pure a : StateT Nat (Effect σ) α) (pure a) :=
  fun _ => together_pure fun _ _ => ⟨rfl, ha⟩

theorem counted_bind {m : StateT Nat (Effect σ) α} {n : StateT Nat (Effect τ) α}
    {F : α → StateT Nat (Effect σ) β} {G : α → StateT Nat (Effect τ) β} (hm : C.Counted w P m n)
    (hF : ∀ w₁, C.Le w w₁ → ∀ a, P a → C.Counted w₁ R (F a) (G a)) :
    C.Counted w R (m >>= F) (n >>= G) := by
  intro i
  rw [StateT.run_bind, StateT.run_bind]
  refine together_bind (hm i) fun w₁ h₁ p p' hp => ?_
  obtain ⟨rfl, hp⟩ := hp
  exact hF w₁ h₁ p'.1 hp p'.2

/-- The results stand in the given relation to the elements that were visited. -/
theorem counted_mapM {Rel : γ → β → Prop} {F : γ → StateT Nat (Effect σ) β}
    {G : γ → StateT Nat (Effect τ) β} {as : List γ}
    (hF : ∀ w₁, C.Le w w₁ → ∀ a, C.Counted w₁ (Rel a) (F a) (G a)) :
    ∀ w₁, C.Le w w₁ → C.Counted w₁ (List.Forall₂ Rel as) (as.mapM F) (as.mapM G) := by
  induction as with
  | nil => exact fun _ _ => counted_pure .nil
  | cons a as ih =>
    intro w₁ h₁
    rw [List.mapM_cons, List.mapM_cons]
    refine counted_bind (hF w₁ h₁ a) fun w₂ h₂ b hb => ?_
    exact counted_bind (ih w₂ (C.trans h₁ h₂)) fun _ _ bs hbs => counted_pure (.cons hb hbs)

end Walks

/-- Lists of the same length, one by one. -/
abbrev Long {α β : Type} : List α → List β → Prop := List.Forall₂ fun _ _ => True

theorem ne_nil_of_long {as : List α} {bs : List β} {Rel : α → β → Prop}
    (h : List.Forall₂ Rel as bs) (has : as ≠ []) : bs ≠ [] := by
  rintro rfl
  cases h
  exact has rfl

/-- What holds of every element on the one side holds on the other. -/
theorem forall_of_forall₂ {P : α → Prop} {R : β → Prop} {Rel : α → β → Prop} {as : List α}
    {bs : List β} (h : List.Forall₂ Rel as bs) (hrel : ∀ a b, Rel a b → P a → R b)
    (has : ∀ a ∈ as, P a) : ∀ b ∈ bs, R b := by
  induction h with
  | nil => simp
  | cons hab _ ih =>
    obtain ⟨ha, has⟩ := List.forall_mem_cons.1 has
    exact List.forall_mem_cons.2 ⟨hrel _ _ hab ha, ih has⟩

section Traverse

variable {F : Coord → StateT Nat (Effect σ) Coord} {G : Coord → StateT Nat (Effect τ) Coord}

mutual

/-- A walk over the coordinates of a geometry leaves it filled. -/
theorem counted_traverse (x : Geometry) (w : C.World)
    (hF : ∀ w₁, C.Le w w₁ → ∀ c, C.Counted w₁ (fun _ => True) (F c) (G c))
    (hx : C.strict → x.Filled) :
    C.Counted w (fun y => C.strict → y.Filled) (x.traverse F) (x.traverse G) := by
  have hline : ∀ w₁, C.Le w w₁ → ∀ cs : List Coord,
      C.Counted w₁ (Long cs) (cs.mapM F) (cs.mapM G) :=
    fun w₁ h₁ cs => counted_mapM hF w₁ h₁
  have hrings : ∀ w₁, C.Le w w₁ → ∀ rs : List (List Coord),
      C.Counted w₁ (List.Forall₂ Long rs) (rs.mapM (List.mapM F)) (rs.mapM (List.mapM G)) :=
    fun w₁ h₁ rs => counted_mapM hline w₁ h₁
  cases x with
  | point c => exact counted_bind (hF w (C.refl w) c) fun _ _ _ _ => counted_pure fun _ => trivial
  | lineString cs =>
    exact counted_bind (hline w (C.refl w) cs) fun _ _ _ _ => counted_pure fun _ => trivial
  | multiPoint cs =>
    exact counted_bind (hline w (C.refl w) cs) fun _ _ _ _ => counted_pure fun _ => trivial
  | polygon rs =>
    refine counted_bind (hrings w (C.refl w) rs) fun _ _ rs' hrs => counted_pure fun hs => ?_
    exact forall_of_forall₂ hrs (fun _ _ => ne_nil_of_long) (hx hs)
  | multiLineString rs =>
    refine counted_bind (hrings w (C.refl w) rs) fun _ _ rs' hrs => counted_pure fun hs => ?_
    exact forall_of_forall₂ hrs (fun _ _ => ne_nil_of_long) (hx hs)
  | multiPolygon ps =>
    refine counted_bind (counted_mapM hrings w (C.refl w)) fun _ _ ps' hps => ?_
    refine counted_pure fun hs => forall_of_forall₂ hps (fun p p' hp hfull => ?_) (hx hs)
    exact ⟨ne_nil_of_long hp hfull.1, forall_of_forall₂ hp (fun _ _ => ne_nil_of_long) hfull.2⟩
  | collection gs =>
    have hgs : ∀ g ∈ gs, C.strict → g.Filled := by
      intro g hg hs
      have hmembers := hx hs
      simp only [Geometry.Filled, Geometry.filledMembers_iff] at hmembers
      exact hmembers g hg
    refine counted_bind (counted_traverseMembers gs [] w hF hgs (by simp)) fun _ _ gs' hgs' => ?_
    refine counted_pure fun hs => ?_
    simp only [Geometry.Filled, Geometry.filledMembers_iff]
    exact fun g hg => hgs' g hg hs

theorem counted_traverseMembers (xs done : List Geometry) (w : C.World)
    (hF : ∀ w₁, C.Le w w₁ → ∀ c, C.Counted w₁ (fun _ => True) (F c) (G c))
    (hxs : ∀ x ∈ xs, C.strict → x.Filled) (hdone : ∀ x ∈ done, C.strict → x.Filled) :
    C.Counted w (fun ys => ∀ y ∈ ys, C.strict → y.Filled) (Geometry.traverseMembers F xs done)
      (Geometry.traverseMembers G xs done) := by
  cases xs with
  | nil => exact counted_pure (by simpa using hdone)
  | cons x xs =>
    obtain ⟨hx, hxs⟩ := List.forall_mem_cons.1 hxs
    refine counted_bind (counted_traverse x w hF hx) fun w₁ h₁ y hy => ?_
    exact counted_traverseMembers xs (y :: done) w₁ (fun w₂ h₂ => hF w₂ (C.trans h₁ h₂)) hxs
      (List.forall_mem_cons.2 ⟨hy, hdone⟩)

end

end Traverse

include hl hfg

theorem together_deepMap (hv : C.Values w v v') :
    C.Together w C.Values (deepMap l f v) (deepMap l' g v') := by
  have hcount : ∀ w₁, C.Le w w₁ → ∀ c,
      C.Counted w₁ (fun _ => True) (mapCounted l f c) (mapCounted l' g c) := by
    intro w₁ h₁ c i
    have hrun : ∀ {υ : Type} (k : Nat) (h : Callback υ), (mapCounted k h c).run i =
        mapCoord k h c i >>= fun c => pure (c, i + 1) := by
      intro υ k h
      simp [mapCounted]
    rw [hrun, hrun]
    refine together_bind (together_mapCoord hl (hfg.later h₁) c i) fun _ _ _ _ h => ?_
    exact together_pure fun _ _ => ⟨by rw [h.1], trivial⟩
  cases hv with
  | closure => exact together_fail _ hl
  | plain _ hfilled =>
    cases v with
    | geometry x =>
      simp only [deepMap, StateT.run', map_eq_pure_bind, bind_assoc]
      refine together_bind (counted_traverse x w hcount hfilled 0) fun _ _ p _ hp => ?_
      rw [hp.1, pure_bind, pure_bind]
      exact together_pure fun _ _ => .geometry hp.2
    | _ => exact together_fail _ hl

omit hfg

/-! ### Repetition -/

theorem together_repeatFrom {F : Nat → Effect σ Value} {G : Nat → Effect τ Value}
    (h : ∀ i, C.Together w C.Values (F i) (G i)) (count i : Nat) (done : List Geometry)
    (hdone : ∀ x ∈ done, C.strict → x.Filled) :
    C.Together w (C.Same fun xs => ∀ x ∈ xs, C.strict → x.Filled) (repeatFrom l F count i done)
      (repeatFrom l' G count i done) := by
  induction count generalizing w i done with
  | zero => exact together_pure fun _ _ => ⟨rfl, by simpa using hdone⟩
  | succ count ih =>
    refine together_bind (h i) fun w₁ h₁ v v' hv => ?_
    have hresult : C.Together w₁ (C.Same fun x => C.strict → x.Filled) (repeatedGeometry l v)
        (repeatedGeometry l' v') := by
      cases hv with
      | closure => exact together_fail _ hl
      | plain _ hfilled =>
        unfold repeatedGeometry
        split
        · exact together_pure fun _ _ => ⟨rfl, hfilled⟩
        · exact together_fail _ hl
    refine together_bind hresult fun w₂ h₂ x x' hx => ?_
    obtain ⟨rfl, hx⟩ := hx
    exact ih (fun i => (h i).later (C.trans h₁ h₂)) (i + 1) _
      (List.forall_mem_cons.2 ⟨hx, hdone⟩)

theorem together_generate {F : Value → Nat → Effect σ Value} {G : Value → Nat → Effect τ Value}
    (hu : C.Values w u u') (hv : C.Values w v v')
    (h : ∀ w₁, C.Le w w₁ → ∀ i, C.Together w₁ C.Values (F v i) (G v' i)) :
    C.Together w C.Values (Pipeline.generate l F u v) (Pipeline.generate l' G u' v') := by
  have hcount : repetitions u' = repetitions u := hu.congr fun v => by cases v <;> rfl
  unfold Pipeline.generate
  refine together_bind (together_equal hcount hl) fun w₁ h₁ n n' hn => ?_
  obtain ⟨rfl, -⟩ := hn
  have hrepeat : C.Together w₁ C.Values
      (do return .geometry (.collection (← repeatFrom l (F v) n' 0 [])))
      (do return .geometry (.collection (← repeatFrom l' (G v') n' 0 []))) := by
    refine together_bind (together_repeatFrom hl (h w₁ h₁) n' 0 [] (by simp)) fun _ _ _ _ h => ?_
    obtain ⟨rfl, h⟩ := h
    refine together_pure fun _ _ => .geometry fun hs => ?_
    simp only [Geometry.Filled, Geometry.filledMembers_iff]
    exact fun x hx => h x hx hs
  cases hv with
  | closure => exact hrepeat
  | plain _ hfilled =>
    cases v with
    | geometry x =>
      refine together_pure fun _ _ => .geometry fun hs => ?_
      simp only [Geometry.Filled, Geometry.filledMembers_iff]
      intro y hy
      rw [List.eq_of_mem_replicate hy]
      exact hfilled hs
    | closure | native => exact hrepeat
    | _ => exact together_fail _ hl

end Pipelines

/-! ## Libraries -/

theorem together_native {random : Effect σ Float} {random' : Effect τ Float}
    (hrandom : C.Together w C.Equal random random') (f : Native) {vs vs' : List Value}
    (hv : C.AllValues w vs vs') (hl : C.Lines l l') :
    C.Together w C.Values (f.run random vs l) (f.run random' vs' l') := by
  unfold Native.run
  rw [hv.length_eq]
  split
  · cases hlibrary : Library.find? f.library with
    | none => exact together_fail _ hl
    | some library =>
      simp only [Option.bind_some]
      cases hb : library.builtin? f.name with
      | none => exact together_fail _ hl
      | some b =>
        cases b with
        | function F =>
          refine together_plain ?_ (Library.plain_builtin hlibrary hb vs)
            (fun hs => Library.givesFilled_builtin hlibrary hb (hv.filled hs)) hl
          rw [← Library.builtin_blank hlibrary hb vs', hv.blank, Library.builtin_blank hlibrary hb]
        | random =>
          refine together_bind hrandom fun _ _ x _ hx => together_pure fun _ _ => ?_
          exact hx.1 ▸ .plain rfl fun _ => trivial
  · exact together_fail _ hl

end Correspondence

end GeoScript
