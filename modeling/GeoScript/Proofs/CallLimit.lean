import GeoScript.Proofs.Recording

/-!
# The limit on nested calls

**Two limits.** The same program is run under a lower and under a higher limit, on the same heap. As
long as no call is refused under the lower limit the two runs do the same, heap by heap. The first
call that is refused ends the run under the lower limit: no construct catches the error or makes
another one of it.

**Theorem (`limit_only_cuts`).** A run that does not end at the limit ends the same under every
higher limit, with the same heap. And in every run the counter of the recorder is the number of
calls in progress.
-/

namespace GeoScript

/-- Equal heaps, until a call is refused under the given limit. -/
def untilRefused (limit : Nat) : Correspondence Heap Heap where
  World := Unit
  Le _ _ := True
  trans _ _ := trivial
  Ran _ _ := True
  ran_refl _ := trivial
  ran_trans _ _ := trivial
  le_of_ran _ := trivial
  Holds _ h k := k = h
  Closures _ c c' := c' = c
  mono _ hc := hc
  beq := by
    rintro _ c _ d _ rfl rfl
    rfl
  Lines l l' := l' = l
  Cut e := e.fault = .recursionLimit limit
  strict := False

section

variable {lower upper : Nat} {v v' : Value} {w : (untilRefused lower).World}

theorem values_untilRefused : (untilRefused lower).Values w v v' ↔ v' = v := by
  constructor
  · intro hv
    cases hv with
    | closure hc => exact congrArg Value.closure hc
    | plain => rfl
  · intro hv
    subst hv
    cases v' with
    | closure c => exact .closure rfl
    | _ => exact .plain rfl fun hs => hs.elim

theorem allValues_untilRefused {vs vs' : List Value}
    (h : (untilRefused lower).AllValues w vs vs') : vs' = vs := by
  induction h with
  | nil => rfl
  | cons hv _ ih => rw [values_untilRefused.1 hv, ih]

/-- Every step goes together with itself. -/
theorem together_self {α : Type} {Q : (untilRefused lower).World → α → α → Prop}
    (hQ : ∀ w a, Q w a a) (m : Effect Heap α) : (untilRefused lower).Together w Q m m := by
  intro w₁ _ h k hk
  obtain rfl : k = h := hk
  rcases m.runOn k with ⟨r, h'⟩
  cases r with
  | ok a => exact .ok ((untilRefused lower).ran_refl w₁) rfl (hQ w₁ a)
  | error e => exact .error ((untilRefused lower).ran_refl w₁) rfl rfl rfl

theorem serves_untilRefused {allowed more : Nat} (program : Nat) (scope : ScopeId)
    (hi : ∀ c vs l, (untilRefused lower).Together w (untilRefused lower).Values
      (callAt lower allowed c vs l) (callAt upper more c vs l)) :
    (untilRefused lower).Serves w .any id (Context.machine ⟨callAt lower allowed, program, scope⟩)
      (Context.machine ⟨callAt upper more, program, scope⟩) where
  lines _ := rfl
  hollow hs := hs.elim
  resolve := by
    intro name _ l _ hl
    subst hl
    exact together_self (fun _ _ => values_untilRefused.2 rfl) _
  declare := by
    intro w₁ v v' name _ hv
    obtain rfl := values_untilRefused.1 hv
    exact together_self (fun _ _ => values_untilRefused.2 rfl) _
  close params _ _ := by
    rw [Expr.placed_id]
    rfl
  invoke := by
    intro w₁ c c' vs vs' _ l h₁ hc hvs hl
    obtain rfl : c' = c := hc
    obtain rfl := allValues_untilRefused hvs
    subst hl
    exact (hi c' vs' _).later h₁
  random := together_self (fun _ _ => ⟨rfl, trivial⟩) _
  watch _ hm := hm
  watchCall _ _ hm := hm

/-- **Calls go together under two limits**, if at least as many more are allowed under the higher
one. The induction is on how many are allowed under the lower one. -/
theorem together_callAt {allowed more : Nat} (hle : allowed ≤ more)
    (w : (untilRefused lower).World) (c : Closure) (vs : List Value) (l : Nat) :
    (untilRefused lower).Together w (untilRefused lower).Values (callAt lower allowed c vs l)
      (callAt upper more c vs l) := by
  induction allowed generalizing more w c vs l with
  | zero =>
    intro w₁ _ h k _
    rw [runOn_callAt_zero]
    exact .cut rfl
  | succ allowed ih =>
    intro w₁ _ h k hk
    obtain rfl : k = h := hk
    obtain ⟨more, rfl⟩ : ∃ n, more = n + 1 := ⟨more - 1, by omega⟩
    have hserves := serves_untilRefused c.lambda.origin.program k.next
      fun c vs l => ih (Nat.le_of_succ_le_succ hle) w₁ c vs l
    have hbody := hserves.together_interpret c.lambda.body w₁ (Expr.meets_any _)
    rw [Expr.placed_id, interpret_machine, interpret_machine] at hbody
    have hends := hbody w₁ trivial (k.enter c vs).2 (k.enter c vs).2 rfl
    rw [runOn_callAt_succ, runOn_callAt_succ]
    dsimp only
    generalize Effect.runOn _ _ = r at hends ⊢
    generalize Effect.runOn _ _ = r' at hends ⊢
    cases hends with
    | @ok _ _ _ h₁ k₁ _ hs hq =>
      obtain rfl : k₁ = h₁ := hs
      obtain rfl := values_untilRefused.1 hq
      exact .ok ((untilRefused lower).ran_refl w₁) rfl hq
    | @error _ _ _ h₁ k₁ _ hs hfault hlines =>
      obtain rfl : k₁ = h₁ := hs
      exact .error ((untilRefused lower).ran_refl w₁) rfl hfault hlines
    | cut hcut => exact .cut hcut

end

/-- A program that does not end at the limit does not notice a higher one. -/
theorem execute_of_le {lower upper : Nat} (hle : lower ≤ upper) {program : Expr} {scope : ScopeId}
    {h : Heap} (hend : ∀ line, (h.execute lower program scope).1 ≠
      .error ⟨.recursionLimit lower, line⟩) :
    h.execute upper program scope = h.execute lower program scope := by
  have hcalls : ∀ c vs l, (untilRefused lower).Together () (untilRefused lower).Values
      (callAt lower lower c vs l) (callAt upper upper c vs l) := together_callAt hle ()
  have hserves := serves_untilRefused h.programs scope hcalls
  have hrun := hserves.together_interpret program _ (Expr.meets_any _)
  rw [Expr.placed_id, interpret_machine, interpret_machine] at hrun
  have hends := hrun () trivial { h with programs := h.programs + 1 }
    { h with programs := h.programs + 1 } rfl
  have hexecute : ∀ limit, h.execute limit program scope = Effect.runOn
      (program.eval ⟨callAt limit limit, h.programs, scope⟩)
      { h with programs := h.programs + 1 } := fun _ => rfl
  rw [hexecute] at hend
  rw [hexecute, hexecute]
  generalize Effect.runOn _ _ = r at hends hend ⊢
  generalize Effect.runOn _ _ = r' at hends ⊢
  cases hends with
  | ok _ hs hq => rw [values_untilRefused.1 hq, show _ = _ from hs]
  | @error _ e e' _ _ _ hs hfault hlines =>
    have herror : e' = e := EvalError.ext hfault hlines
    rw [herror, show _ = _ from hs]
  | @cut e _ _ hcut =>
    obtain ⟨fault, line⟩ := e
    obtain rfl : fault = .recursionLimit lower := hcut
    exact absurd rfl (hend line)

/-- **The limit only cuts runs off.** Under a higher limit a run that was not cut off ends with the
same outcome and the same heap. In every run, of which the recorder keeps a log, the counter is back
where it was after each evaluation and each call, it is the number of calls in progress at every
event, and it is within the limit. -/
theorem limit_only_cuts (program : Expr) (scope : ScopeId) (h : Heap) :
    (∀ lower upper, lower ≤ upper →
      (∀ line, (h.execute lower program scope).1 ≠ .error ⟨.recursionLimit lower, line⟩) →
      h.execute upper program scope = h.execute lower program scope) ∧
    ∀ limit fuel, limit ≤ fuel → ∃ log,
      h.record limit fuel program scope =
        ((h.execute limit program scope).1, ⟨(h.execute limit program scope).2, 0, log⟩) ∧
      Nested limit 0 log ∧
      ∀ before e after, log = before ++ e :: after →
        entered (before ++ [e]) = e.counter + left (before ++ [e]) ∧ e.counter ≤ limit := by
  constructor
  · intro lower upper hle hend
    exact execute_of_le hle hend
  · intro limit fuel hfuel
    have hany : h.Binds (Value.Meets fun _ => .any) := by
      intro _ _ v _
      cases v with
      | closure c => exact ⟨trivial, Expr.meets_any _⟩
      | _ => exact fun hhollow => absurd trivial (hhollow 0)
    obtain ⟨log, hrun, hnested, -⟩ := record_execute hfuel (Expr.meets_any program) hany scope
    refine ⟨log, hrun, hnested, fun before e after hlog => ?_⟩
    have htracked : Tracked limit 0 (log ++ []) := hnested.tracked (Nat.zero_le _) trivial
    rw [List.append_nil, hlog] at htracked
    simpa using htracked.counter_eq

/-- A call under limits of one and of two. -/
theorem limit_only_cuts_identity :
    let p : Position := .start
    let program : Expr := .seq [.decl "f" (.function ["x"] (.seq [.ident "x" p] p) p) p,
      .call (.ident "f" p) [.number 1 p]] p
    let h := (Heap.fresh 0).2
    (∀ line, (h.execute 1 program 0).1 ≠ .error ⟨.recursionLimit 1, line⟩) ∧
      h.execute 2 program 0 = h.execute 1 program 0 ∧
      ∃ log, (h.record 1 5 program 0).2.log = log ∧ Nested 1 0 log := by
  intro p program h
  have hok : (h.execute 1 program 0).1.isOk = true := by decide +kernel
  have hend : ∀ line, (h.execute 1 program 0).1 ≠ .error ⟨.recursionLimit 1, line⟩ := by
    intro line herror
    rw [herror] at hok
    cases hok
  obtain ⟨hsame, hrecord⟩ := limit_only_cuts program 0 h
  obtain ⟨log, hrun, hnested, -⟩ := hrecord 1 5 (by decide)
  exact ⟨hend, hsame 1 2 (by decide) hend, log, by rw [hrun], hnested⟩

end GeoScript
