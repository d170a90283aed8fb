import GeoScript.Effect

/-!
# Calls in turn

A function that may fail and may change a state is called on the entries of a list, one after the
other: each call begins in the state that the one before it has left (`Calls`). The first call that
fails is the last one that is made (`InTurn`).

**Theorem (`inTurn_mapM`).** This is what mapping a list comes to.
-/

namespace GeoScript

variable {σ ε α β γ : Type} {f : α → ExceptT ε (StateM σ) β}

/-- The calls on these entries give these results, and lead from the one state to the other. -/
inductive Calls (f : α → ExceptT ε (StateM σ) β) : σ → List α → List β → σ → Prop
  | nil {s : σ} : Calls f s [] [] s
  | cons {s t u : σ} {a : α} {as : List α} {b : β} {bs : List β} :
    (f a).run.run s = (.ok b, t) → Calls f t as bs u → Calls f s (a :: as) (b :: bs) u

/-- What calling a function on the entries of a list comes to, and the state that it leaves. -/
inductive InTurn (f : α → ExceptT ε (StateM σ) β) (as : List α) (s : σ) :
    Except ε (List β) × σ → Prop
  | done {bs : List β} {t : σ} : Calls f s as bs t → InTurn f as s (.ok bs, t)
  | failed {before after : List α} {a : α} {bs : List β} {e : ε} {t u : σ} :
    as = before ++ a :: after → Calls f s before bs t → (f a).run.run t = (.error e, u) →
      InTurn f as s (.error e, u)

theorem Calls.length_eq {s t : σ} {as : List α} {bs : List β} (h : Calls f s as bs t) :
    bs.length = as.length := by
  induction h with
  | nil => rfl
  | cons _ _ ih => rw [List.length_cons, List.length_cons, ih]

/-- A value that one of the calls in turn returns. -/
def Returned (f : α → ExceptT ε (StateM σ) β) (s : σ) (as : List α) (b : β) : Prop :=
  ∃ before a after bs t u,
    as = before ++ a :: after ∧ Calls f s before bs t ∧ (f a).run.run t = (.ok b, u)

theorem Returned.cons {s t : σ} {a : α} {as : List α} {b c : β}
    (ha : (f a).run.run s = (.ok b, t)) (h : Returned f t as c) : Returned f s (a :: as) c := by
  obtain ⟨before, a', after, bs, t', u, rfl, hcalls, hc⟩ := h
  exact ⟨a :: before, a', after, b :: bs, t', u, rfl, .cons ha hcalls, hc⟩

/-- The results are what the calls return. -/
theorem Calls.returned {s t : σ} {as : List α} {bs : List β} (h : Calls f s as bs t)
    (after : List α) : ∀ b ∈ bs, Returned f s (as ++ after) b := by
  induction h with
  | nil => exact nofun
  | @cons s t _ a as b _ ha _ ih =>
    refine List.forall_mem_cons.2 ⟨⟨[], a, as ++ after, [], s, t, rfl, .nil, ha⟩, ?_⟩
    intro c hc
    exact (ih c hc).cons ha

/-- A step that is followed by another ends as that one, or fails at once. -/
theorem run_bind (m : ExceptT ε (StateM σ) α) (k : α → ExceptT ε (StateM σ) β) (s : σ) :
    (m >>= k).run.run s = match m.run.run s with
      | (.ok a, t) => (k a).run.run t
      | (.error e, t) => (.error e, t) := by
  simp only [bind, ExceptT.run, ExceptT.bind, ExceptT.mk, StateT.bind, StateT.run]
  rcases m s with ⟨_ | _, _⟩ <;> rfl

/-- **Mapping a list** calls the function on the entries in turn. -/
theorem inTurn_mapM (f : α → ExceptT ε (StateM σ) β) (as : List α) (s : σ) :
    InTurn f as s ((as.mapM f).run.run s) := by
  induction as generalizing s with
  | nil => exact .done .nil
  | cons a as ih =>
    rw [List.mapM_cons, run_bind]
    rcases ha : (f a).run.run s with ⟨e | b, t⟩
    · exact .failed rfl .nil ha
    · dsimp only
      rw [run_bind]
      have hrest := ih t
      generalize (as.mapM f).run.run t = r at hrest
      cases hrest with
      | done hcalls => exact .done (.cons ha hcalls)
      | @failed before after a' _ _ _ _ has hcalls he =>
        have hsplit : a :: as = (a :: before) ++ a' :: after := congrArg (a :: ·) has
        exact .failed hsplit (.cons ha hcalls) he

end GeoScript
