import GeoScript.Proofs.Coordinates
import GeoScript.Proofs.Shifting

/-!
# Callbacks called one after the other

**Lone calls.** Each call of a callback begins where the one before it has ended: with more numbers
handed out, and perhaps with scopes that were not given back. But all scopes of the beginning are as
they were (`Heap.Since`), and more does not matter to a call that draws no random number: it answers
as it would have done at the beginning, alone (`Since.answers_callAt`).

**Steady steps.** What has the same outcome in all states of a kind, and leads to such a state
again, has an outcome that can be computed without any state (`Effect.Steady`). Walks are made of such
steps.

**Theorem (`callbacks_apart`).** What a walk makes of a source is told by the lone calls of its
callback: it is put together from what they return, or it is the error of the first of them that
fails, or of the first that returns a value of the wrong type.
-/

namespace GeoScript

open Pipeline

/-! ## Steady steps -/

namespace Effect

variable {σ α β γ : Type} {I : σ → Prop}

/-- From every state of the kind the step has the given outcome, and leads to such a state. -/
def Steady (I : σ → Prop) (m : Effect σ α) (x : Except EvalError α) : Prop :=
  ∀ s, I s → (m.runOn s).1 = x ∧ I (m.runOn s).2

/-- The same, but for what is inside of a closure. -/
def Answers (I : σ → Prop) (m : Effect σ Value) (x : Except EvalError Value) : Prop :=
  ∀ s, I s → (m.runOn s).1.map Value.blank = x.map Value.blank ∧ I (m.runOn s).2

theorem steady_pure (a : α) : Steady I (pure a) (.ok a) := fun _ hs => ⟨rfl, hs⟩

theorem Steady.bind {m : Effect σ α} {x : Except EvalError α} {f : α → Effect σ β}
    {y : α → Except EvalError β} (hm : Steady I m x) (hf : ∀ a, x = .ok a → Steady I (f a) (y a)) :
    Steady I (m >>= f) (x >>= y) := by
  intro s hs
  obtain ⟨hx, hs'⟩ := hm s hs
  rw [runOn_bind]
  generalize m.runOn s = r at hx hs'
  obtain ⟨r, t⟩ := r
  obtain rfl : r = x := hx
  cases r with
  | ok a => exact hf a rfl t hs'
  | error e => exact ⟨rfl, hs'⟩

theorem Steady.map {m : Effect σ α} {x : Except EvalError α} (hm : Steady I m x) (f : α → β) :
    Steady I (do return f (← m)) (x.map f) := by
  have hbind : Steady I (m >>= fun a => pure (f a)) (x >>= fun a => .ok (f a)) :=
    hm.bind fun a _ => steady_pure (f a)
  cases x <;> exact hbind

theorem steady_ofExcept (x : Except EvalFault α) (line : Nat) :
    Steady I (.ofExcept line x) (x.mapError (⟨·, line⟩)) := by
  cases x <;> exact fun _ hs => ⟨rfl, hs⟩

/-- What is made of an outcome by a check whose faults are reported at a line. -/
def judge (line : Nat) (accept : Value → Except EvalFault β) (x : Except EvalError Value) :
    Except EvalError β :=
  x >>= fun v => (accept v).mapError (⟨·, line⟩)

theorem judge_error (line : Nat) (accept : Value → Except EvalFault β) (e : EvalError) :
    judge line accept (.error e) = .error e := rfl

theorem judge_ok (line : Nat) (accept : Value → Except EvalFault β) (v : Value) :
    judge line accept (.ok v) = (accept v).mapError (⟨·, line⟩) := rfl

/-- A check that does not look into closures makes an answer steady. -/
theorem Answers.judge {m : Effect σ Value} {x : Except EvalError Value}
    {accept : Value → Except EvalFault β} (hm : Answers I m x)
    (haccept : ∀ v, accept v.blank = accept v) (line : Nat) :
    Steady I (m >>= fun v => .ofExcept line (accept v)) (judge line accept x) := by
  intro s hs
  obtain ⟨hx, hs'⟩ := hm s hs
  rw [runOn_bind]
  generalize m.runOn s = r at hx hs'
  obtain ⟨r, t⟩ := r
  cases r with
  | error e =>
    cases x with
    | error e' =>
      obtain rfl : e = e' := Except.error.inj hx
      exact ⟨rfl, hs'⟩
    | ok v' => cases hx
  | ok v =>
    cases x with
    | error e' => cases hx
    | ok v' =>
      have hsame : accept v = accept v' := by
        rw [← haccept v, Except.ok.inj hx, haccept]
      dsimp only
      rw [hsame]
      exact steady_ofExcept (accept v') line t hs'

/-! ### Walks over lists -/

/-- What goes before a list of results goes before the first of them. -/
theorem map_mapM_cons {p : γ → Except EvalError β} {g : List β → List α} {f : β → List β → List α}
    (hf : ∀ b bs, f b bs = g (b :: bs)) (c : γ) (cs : List γ) :
    (p c >>= fun b => (cs.mapM p).map (f b)) = ((c :: cs).mapM p).map g := by
  rw [List.mapM_cons]
  cases p c with
  | error e => rfl
  | ok b =>
    cases hps : cs.mapM p with
    | error e => rfl
    | ok bs => exact congrArg Except.ok (hf b bs)

theorem steady_reverse (done : List α) :
    Steady I (pure done.reverse) (.ok (done.reverse ++ [])) := by
  rw [List.append_nil]
  exact steady_pure _

/-- The elements that were chosen. -/
def chosen (as : List α) (bs : List Bool) : List α := ((as.zip bs).filter (·.2)).map (·.1)

variable (args : α → Nat → γ)

theorem steady_mapFrom {F : α → Nat → Effect σ β} {p : γ → Except EvalError β} (as : List α)
    (i : Nat) (done : List β)
    (h : ∀ x ∈ as.zipIdx i, Steady I (F x.1 x.2) (p (args x.1 x.2))) :
    Steady I (mapFrom F i as done)
      ((((as.zipIdx i).map fun x => args x.1 x.2).mapM p).map (done.reverse ++ ·)) := by
  induction as generalizing i done with
  | nil => exact steady_reverse done
  | cons a as ih =>
    obtain ⟨ha, has⟩ := List.forall_mem_cons.1 h
    have hwalk := ha.bind fun b _ => ih (i + 1) (b :: done) has
    rw [map_mapM_cons (g := (done.reverse ++ ·)) (by simp)] at hwalk
    exact hwalk

theorem steady_filterFrom {test : α → Nat → Effect σ Bool} {p : γ → Except EvalError Bool}
    (as : List α) (i : Nat) (done : List α)
    (h : ∀ x ∈ as.zipIdx i, Steady I (test x.1 x.2) (p (args x.1 x.2))) :
    Steady I (filterFrom test i as done) ((((as.zipIdx i).map fun x => args x.1 x.2).mapM p).map
      fun bs => done.reverse ++ chosen as bs) := by
  induction as generalizing i done with
  | nil => exact steady_reverse done
  | cons a as ih =>
    obtain ⟨ha, has⟩ := List.forall_mem_cons.1 h
    have hrest : ∀ b, Steady I
        (if b then filterFrom test (i + 1) as (a :: done) else filterFrom test (i + 1) as done)
        ((((as.zipIdx (i + 1)).map fun x => args x.1 x.2).mapM p).map fun bs =>
          done.reverse ++ chosen (a :: as) (b :: bs)) := by
      intro b
      cases b with
      | true => simpa [chosen] using ih (i + 1) (a :: done) has
      | false => simpa [chosen] using ih (i + 1) done has
    have hwalk := ha.bind fun b _ => hrest b
    rw [map_mapM_cons (g := fun bs => done.reverse ++ chosen (a :: as) bs) fun _ _ => rfl] at hwalk
    exact hwalk

theorem steady_repeatFrom {F : Nat → Effect σ Value} {p : γ → Except EvalError Geometry}
    {args : Nat → γ} {line : Nat} (count i : Nat) (done : List Geometry)
    (h : ∀ j ∈ List.range' i count,
      Steady I (do repeatedGeometry line (← F j)) (p (args j))) :
    Steady I (repeatFrom line F count i done)
      ((((List.range' i count).map args).mapM p).map (done.reverse ++ ·)) := by
  induction count generalizing i done with
  | zero => exact steady_reverse done
  | succ count ih =>
    obtain ⟨hi, hrest⟩ := List.forall_mem_cons.1 h
    have hwalk := hi.bind fun g _ => ih (i + 1) (g :: done) hrest
    rw [map_mapM_cons (g := (done.reverse ++ ·)) (by simp), bind_assoc] at hwalk
    exact hwalk

end Effect

/-! ## Lone calls -/

namespace Heap

/-- A later heap that has all scopes as they were, and has drawn no random number. -/
structure Since (h k : Heap) : Prop where
  numbered : k.Numbered
  keeps : Keeps h k
  draws : k.draws = h.draws

namespace Since

variable {h k : Heap} {f : Closure} {args : List Value} {limit allowed line : Nat}

theorem refl (hn : h.Numbered) : Since h h := ⟨hn, ⟨Later.refl h, fun _ _ => rfl⟩, rfl⟩

/-- **A call answers as it would have done alone**, if that would have drawn no random number. -/
theorem answers_callAt (hn : h.Numbered) (hf : f.scope < h.next)
    (ha : ∀ a ∈ args, a.isClosure = false)
    (hstill : ((callAt limit allowed f args line).runOn h).2.draws.drawn = h.draws.drawn) :
    Effect.Answers (Since h) (callAt limit allowed f args line)
      ((callAt limit allowed f args line).runOn h).1 := by
  intro k hk
  obtain ⟨offset, hs⟩ := hn.shifted hk.numbered hk.keeps hk.draws
  obtain ⟨hresult, hs'⟩ := hs.callAt limit allowed f args line
  -- The closure and its arguments know older numbers only, which are not moved.
  have hclosure : f.moved h.next offset = f := by rw [Closure.moved, shift_of_lt hf]
  have hargs : args.map (Value.moved h.next offset) = args :=
    (List.map_congr_left fun a hmem => Value.moved_of_plain (ha a hmem)).trans (List.map_id _)
  rw [hclosure, hargs] at hresult hs'
  refine ⟨?_, ?_, ?_, ?_⟩
  · rw [hresult]
    cases ((callAt limit allowed f args line).runOn h).1 with
    | error e => rfl
    | ok v => exact congrArg Except.ok Value.blank_moved
  · refine hk.numbered.callAt (Nat.lt_of_lt_of_le hf hk.keeps.next_le) ?_ limit allowed line
    intro a hmem
    exact Value.below_of_plain (ha a hmem) _
  · have hkeeps := keeps_callAt limit allowed f args line k
    refine ⟨hk.keeps.toLater.trans hkeeps.toLater, fun id hid => ?_⟩
    rw [hkeeps.scopes id (Nat.lt_of_lt_of_le hid hk.keeps.next_le), hk.keeps.scopes id hid]
  · rw [hs'.draws]
    exact Draws.ext (keeps_callAt limit allowed f args line h).numbers hstill

end Since

end Heap

/-! ## Walks -/

/-- What may be done with a source by a callback, or so many times. -/
inductive Walk where
  | map (source : Value)
  | filter (source : Value)
  | deepMap (source : Value)
  | generate (count : Value)

namespace Walk

def perform (ctx : Context) (f : Value) (line : Nat) : Walk → Effect Heap Value
  | map source => ctx.pipe .map source f line
  | filter source => ctx.pipe .filter source f line
  | deepMap source => ctx.pipe .deepMap source f line
  | generate count => ctx.generate count f line

/-- What a callback is called with for an element: the element and its index. -/
def elementArgs (element : Geometry) (index : Nat) : List Value :=
  [.geometry element, .number (Float.ofNat index)]

def pointArgs (c : Coord) (index : Nat) : List Value := elementArgs (.point c) index

def indexArgs (index : Nat) : List Value := [.number (Float.ofNat index)]

/-- The elements of a value that has some. -/
def elements? : Value → Option (List Geometry)
  | .geometry (.lineString cs) => some (cs.map .point)
  | .geometry (.multiPoint cs) => some (cs.map .point)
  | .geometry (.collection gs) => some gs
  | _ => none

/-- What the callback is called with, one time after the other, or why it is not called at all. -/
def calls : Walk → Except EvalFault (List (List Value))
  | map source | filter source =>
    match elements? source with
    | some gs => .ok (gs.zipIdx.map fun x => elementArgs x.1 x.2)
    | none => .error (source.needed .arrayLike)
  | deepMap source =>
    match source with
    | .geometry g => .ok (g.coords.zipIdx.map fun x => pointArgs x.1 x.2)
    | _ => .error (.typeMismatch (.deepMapSource source.typeName))
  | generate count => (repetitions count).map fun n => (List.range n).map indexArgs

/-- The point that is wanted from a callback. -/
def pointResult : Value → Except EvalFault Coord
  | .geometry (.point c) => .ok c
  | v => .error (.typeMismatch (.callbackPoint v.typeName))

/-- The geometry that is wanted from a callback. -/
def geometryResult (complaint : TypeName → EvalFault) : Value → Except EvalFault Geometry
  | .geometry g => .ok g
  | v => .error (complaint v.typeName)

/-- What is wrong with a value that the callback returned, if it is of the wrong type. -/
def fault? : Walk → Value → Option EvalFault
  | map (.geometry (.collection _)), v =>
    if v.isGeometry then none else some (.typeMismatch (.callbackGeometry v.typeName))
  | map _, v | deepMap _, v =>
    if v.typeName = .geometry .point then none
    else some (.typeMismatch (.callbackPoint v.typeName))
  | filter _, v => if v.typeName = .boolean then none else some (v.needed .boolean)
  | generate _, v => if v.isGeometry then none else some (.generate (.resultType v.typeName))

/-- What is put together from the values that the callback returned. -/
inductive Built : Walk → List Value → Value → Prop
  | mapLine {cs cs' : List Coord} : Built (.map (.geometry (.lineString cs))) (cs'.map .point)
    (.geometry (.lineString cs'))
  | mapPoints {cs cs' : List Coord} : Built (.map (.geometry (.multiPoint cs))) (cs'.map .point)
    (.geometry (.multiPoint cs'))
  | mapMembers {gs gs' : List Geometry} :
    Built (.map (.geometry (.collection gs))) (gs'.map .geometry) (.geometry (.collection gs'))
  | filterLine {cs : List Coord} {bs : List Bool} :
    Built (.filter (.geometry (.lineString cs))) (bs.map .bool)
      (.geometry (.lineString (Effect.chosen cs bs)))
  | filterPoints {cs : List Coord} {bs : List Bool} :
    Built (.filter (.geometry (.multiPoint cs))) (bs.map .bool)
      (.geometry (.multiPoint (Effect.chosen cs bs)))
  | filterMembers {gs : List Geometry} {bs : List Bool} :
    Built (.filter (.geometry (.collection gs))) (bs.map .bool)
      (.geometry (.collection (Effect.chosen gs bs)))
  | deepMap {g : Geometry} {ds : List Coord} (h : (g.refill ds).coords = ds) :
    Built (.deepMap (.geometry g)) (ds.map .point) (.geometry (g.refill ds))
  | generate {count : Value} {gs : List Geometry} (h : repetitions count = .ok gs.length) :
    Built (.generate count) (gs.map .geometry) (.geometry (.collection gs))

/-- What a walk ends in, told by the lone calls of its callback. -/
inductive Told (w : Walk) (lone : List Value → Except EvalError Value) (line : Nat) :
    Except EvalError Value → Prop
  /-- The callback is not called. -/
  | refused {fault : EvalFault} : w.calls = .error fault → Told w lone line (.error ⟨fault, line⟩)
  /-- Every lone call returns a value of the right type, and the result is put together from
  these. -/
  | done {calls : List (List Value)} {vs : List Value} {r : Value} : w.calls = .ok calls →
    List.Forall₂ (fun args v => lone args = .ok v ∧ w.fault? v = none) calls vs → w.Built vs r →
      Told w lone line (.ok r)
  /-- The first lone call that goes wrong fails. -/
  | failed {before after : List (List Value)} {args : List Value} {e : EvalError} :
    w.calls = .ok (before ++ args :: after) →
    (∀ a ∈ before, ∃ v, lone a = .ok v ∧ w.fault? v = none) → lone args = .error e →
      Told w lone line (.error e)
  /-- The first lone call that goes wrong returns a value of the wrong type. -/
  | mistyped {before after : List (List Value)} {args : List Value} {v : Value}
    {fault : EvalFault} : w.calls = .ok (before ++ args :: after) →
    (∀ a ∈ before, ∃ v, lone a = .ok v ∧ w.fault? v = none) → lone args = .ok v →
    w.fault? v = some fault → Told w lone line (.error ⟨fault, line⟩)

/-! ### The first that goes wrong -/

/-- A walk gives a result for each element, or the error of the first that has one. -/
theorem mapM_cases {ε α β : Type} (p : α → Except ε β) (as : List α) :
    (∃ bs, as.mapM p = .ok bs ∧ List.Forall₂ (fun a b => p a = .ok b) as bs) ∨
    ∃ before a after e, as = before ++ a :: after ∧ (∀ a' ∈ before, ∃ b, p a' = .ok b) ∧
      p a = .error e ∧ as.mapM p = .error e := by
  induction as with
  | nil => exact .inl ⟨[], rfl, .nil⟩
  | cons a as ih =>
    rw [List.mapM_cons]
    cases ha : p a with
    | error e => exact .inr ⟨[], a, as, e, rfl, nofun, ha, rfl⟩
    | ok b =>
      rcases ih with ⟨bs, hbs, hall⟩ | ⟨before, a', after, e, rfl, hbefore, ha', he⟩
      · rw [hbs]
        exact .inl ⟨b :: bs, rfl, .cons ha hall⟩
      · rw [he]
        exact .inr ⟨a :: before, a', after, e, rfl,
          List.forall_mem_cons.2 ⟨⟨b, ha⟩, hbefore⟩, ha', rfl⟩

/-- The check takes values of the right type for what they hold, and finds the fault of others. -/
def Judged {β : Type} (w : Walk) (accept : Value → Except EvalFault β) (wrap : β → Value) : Prop :=
  ∀ v, (∃ b, accept v = .ok b ∧ v = wrap b ∧ w.fault? v = none) ∨
    ∃ fault, accept v = .error fault ∧ w.fault? v = some fault

section Judged

variable {β : Type} {w : Walk} {accept : Value → Except EvalFault β} {wrap : β → Value}
  {lone : List Value → Except EvalError Value} {line : Nat} {args : List Value}

theorem Judged.of_ok (hw : w.Judged accept wrap) {b : β}
    (h : Effect.judge line accept (lone args) = .ok b) :
    lone args = .ok (wrap b) ∧ w.fault? (wrap b) = none := by
  cases hlone : lone args with
  | error e =>
    rw [hlone, Effect.judge_error] at h
    cases h
  | ok v =>
    rw [hlone, Effect.judge_ok] at h
    rcases hw v with ⟨b', haccept, rfl, hfault⟩ | ⟨fault, haccept, hfault⟩
    · rw [haccept] at h
      cases h
      exact ⟨rfl, hfault⟩
    · rw [haccept] at h
      cases h

theorem Judged.of_error (hw : w.Judged accept wrap) {e : EvalError}
    (h : Effect.judge line accept (lone args) = .error e) :
    lone args = .error e ∨
      ∃ v fault, lone args = .ok v ∧ w.fault? v = some fault ∧ e = ⟨fault, line⟩ := by
  cases hlone : lone args with
  | error e' =>
    rw [hlone, Effect.judge_error] at h
    cases h
    exact .inl rfl
  | ok v =>
    rw [hlone, Effect.judge_ok] at h
    rcases hw v with ⟨b, haccept, -, -⟩ | ⟨fault, haccept, hfault⟩
    · rw [haccept] at h
      cases h
    · rw [haccept] at h
      cases h
      exact .inr ⟨v, fault, rfl, hfault, rfl⟩

/-- What a walk over the calls comes to is told by them. -/
theorem Judged.told (hw : w.Judged accept wrap) {calls : List (List Value)}
    (hcalls : w.calls = .ok calls) {build : List β → Value}
    (hbuilt : ∀ bs, bs.length = calls.length → w.Built (bs.map wrap) (build bs)) :
    w.Told lone line ((calls.mapM fun args => Effect.judge line accept (lone args)).map build) := by
  rcases mapM_cases (fun args => Effect.judge line accept (lone args)) calls with
    ⟨bs, hbs, hall⟩ | ⟨before, args, after, e, rfl, hbefore, hargs, he⟩
  · rw [hbs]
    refine .done hcalls ?_ (hbuilt bs hall.length_eq.symm)
    rw [List.forall₂_map_right_iff]
    exact hall.imp fun _ _ => hw.of_ok
  · have hright : ∀ a ∈ before, ∃ v, lone a = .ok v ∧ w.fault? v = none := by
      intro a ha
      obtain ⟨b, hb⟩ := hbefore a ha
      exact ⟨wrap b, hw.of_ok hb⟩
    rw [he]
    rcases hw.of_error hargs with hlone | ⟨v, fault, hlone, hfault, rfl⟩
    · exact .failed hcalls hright hlone
    · exact .mistyped hcalls hright hlone hfault

end Judged

/-! ### The checks -/

theorem judged_line (cs : List Coord) :
    (map (.geometry (.lineString cs))).Judged pointResult .point := by
  intro v
  cases v with
  | geometry g => cases g <;> first | exact .inl ⟨_, rfl, rfl, rfl⟩ | exact .inr ⟨_, rfl, rfl⟩
  | _ => exact .inr ⟨_, rfl, rfl⟩

theorem judged_points (cs : List Coord) :
    (map (.geometry (.multiPoint cs))).Judged pointResult .point :=
  judged_line cs

theorem judged_deepMap (source : Value) : (deepMap source).Judged pointResult .point :=
  judged_line []

theorem judged_members (gs : List Geometry) :
    (map (.geometry (.collection gs))).Judged
      (geometryResult fun name => .typeMismatch (.callbackGeometry name)) .geometry := by
  intro v
  cases v with
  | geometry g => exact .inl ⟨g, rfl, rfl, rfl⟩
  | _ => exact .inr ⟨_, rfl, rfl⟩

theorem judged_generate (count : Value) :
    (generate count).Judged (geometryResult fun name => .generate (.resultType name)) .geometry := by
  intro v
  cases v with
  | geometry g => exact .inl ⟨g, rfl, rfl, rfl⟩
  | _ => exact .inr ⟨_, rfl, rfl⟩

theorem judged_filter (source : Value) : (filter source).Judged Value.asBool .bool := by
  intro v
  cases v with
  | bool b => exact .inl ⟨b, rfl, rfl, rfl⟩
  | _ => exact .inr ⟨_, rfl, rfl⟩

theorem pointResult_blank (v : Value) : pointResult v.blank = pointResult v := by
  cases v <;> rfl

theorem geometryResult_blank (complaint : TypeName → EvalFault) (v : Value) :
    geometryResult complaint v.blank = geometryResult complaint v := by
  cases v <;> rfl

/-! ### Steps -/

section Steps

variable {σ : Type} {I : Heap → Prop} {f : Closure} {ctx : Context} {line : Nat}
  {lone : List Value → Except EvalError Value}

theorem resultPoint_eq :
    (resultPoint line : Value → Effect σ Coord) = fun v => .ofExcept line (pointResult v) := by
  funext v
  cases v with
  | geometry g => cases g <;> rfl
  | _ => rfl

theorem resultGeometry_eq : (resultGeometry line : Value → Effect σ Geometry) = fun v =>
    .ofExcept line (geometryResult (fun name => .typeMismatch (.callbackGeometry name)) v) := by
  funext v
  cases v <;> rfl

theorem repeatedGeometry_eq : (repeatedGeometry line : Value → Effect Heap Geometry) = fun v =>
    .ofExcept line (geometryResult (fun name => .generate (.resultType name)) v) := by
  funext v
  cases v <;> rfl

theorem steady_mapCoord {c : Coord} {i : Nat}
    (hc : Effect.Answers I (ctx.invoke f (pointArgs c i) line)
      (lone (pointArgs c i))) :
    Effect.Steady I (mapCoord line (ctx.callElement (.closure f) line) c i)
      (Effect.judge line pointResult (lone (pointArgs c i))) := by
  rw [mapCoord, resultPoint_eq]
  exact hc.judge pointResult_blank line

theorem steady_mapMember {g : Geometry} {i : Nat}
    (hg : Effect.Answers I (ctx.invoke f (elementArgs g i) line) (lone (elementArgs g i))) :
    Effect.Steady I (mapMember line (ctx.callElement (.closure f) line) g i)
      (Effect.judge line (geometryResult fun name => .typeMismatch (.callbackGeometry name))
        (lone (elementArgs g i))) := by
  rw [mapMember, resultGeometry_eq]
  exact hg.judge (geometryResult_blank _) line

theorem steady_repeated {i : Nat}
    (hi : Effect.Answers I (ctx.invoke f (indexArgs i) line) (lone (indexArgs i))) :
    Effect.Steady I (do repeatedGeometry line (← ctx.call (.closure f) (indexArgs i) line))
      (Effect.judge line (geometryResult fun name => .generate (.resultType name))
        (lone (indexArgs i))) := by
  rw [repeatedGeometry_eq]
  exact hi.judge (geometryResult_blank _) line

/-- Coordinates are counted as the elements of a list are. -/
theorem mapFrom_mapCoord (cb : Callback σ) (cs : List Coord) (i : Nat) (done : List Coord) :
    mapFrom (mapCoord line cb) i cs done =
      (cs.mapM (mapCounted line cb)).run i >>= fun x => pure (done.reverse ++ x.1) := by
  induction cs generalizing i done with
  | nil => simp [mapFrom]
  | cons c cs ih =>
    rw [mapFrom, List.mapM_cons]
    simp [ih, mapCounted]

/-- A deep map is a map of the list of coordinates. -/
theorem deepMap_eq (cb : Callback σ) (g : Geometry) :
    Pipeline.deepMap line cb (.geometry g) = do
      return .geometry (g.refill (← mapFrom (mapCoord line cb) 0 g.coords [])) := by
  have hrun : (g.traverse (mapCounted line cb)).run' 0 =
      mapFrom (mapCoord line cb) 0 g.coords [] >>= fun ds => pure (g.refill ds) := by
    rw [Geometry.traverse_eq, mapFrom_mapCoord]
    simp
  rw [Pipeline.deepMap, hrun]
  simp

end Steps

/-! ### Each walk -/

section Walks

variable {h : Heap} {f : Closure} {ctx : Context} {line : Nat} {w : Walk}
  {lone : List Value → Except EvalError Value}

/-- The calls of the walk answer as the lone ones, also after others. -/
def Alone (w : Walk) (h : Heap) (ctx : Context) (f : Closure) (line : Nat)
    (lone : List Value → Except EvalError Value) : Prop :=
  ∀ calls, w.calls = .ok calls → ∀ args ∈ calls,
    Effect.Answers (Heap.Since h) (ctx.invoke f args line) (lone args)

theorem Judged.told_of_steady {β δ : Type} {accept : Value → Except EvalFault β}
    {wrap : β → Value} {calls : List (List Value)} {m : Effect Heap δ} {gather : List β → δ}
    {build : δ → Value} (hw : w.Judged accept wrap) (hn : h.Numbered) (hcalls : w.calls = .ok calls)
    (hm : Effect.Steady (Heap.Since h) m
      ((calls.mapM fun args => Effect.judge line accept (lone args)).map gather))
    (hbuilt : ∀ bs, bs.length = calls.length → w.Built (bs.map wrap) (build (gather bs))) :
    w.Told lone line ((do return build (← m) : Effect Heap Value).runOn h).1 := by
  rw [((hm.map build) h (.refl hn)).1]
  have htold : w.Told lone line
      ((calls.mapM fun args => Effect.judge line accept (lone args)).map (build ∘ gather)) :=
    hw.told hcalls hbuilt
  cases hresult : calls.mapM fun args => Effect.judge line accept (lone args) with
  | error e =>
    rw [hresult] at htold
    exact htold
  | ok bs =>
    rw [hresult] at htold
    exact htold

/-- The elements of a line or of a set of points are points. -/
theorem calls_points (cs : List Coord) :
    (.ok ((cs.map Geometry.point).zipIdx.map fun x => elementArgs x.1 x.2) :
      Except EvalFault (List (List Value))) =
      .ok (cs.zipIdx.map fun x => pointArgs x.1 x.2) := by
  rw [List.zipIdx_map, List.map_map]
  rfl

theorem told_map (hn : h.Numbered) {source : Value} (ha : (map source).Alone h ctx f line lone) :
    (map source).Told lone line (((map source).perform ctx (.closure f) line).runOn h).1 := by
  cases source with
  | geometry g =>
    cases g with
    | lineString cs =>
      have hcalls := calls_points cs
      refine (judged_line cs).told_of_steady hn hcalls
        (Effect.steady_mapFrom pointArgs cs 0 [] ?_) fun ds _ => .mapLine
      intro x hx
      exact steady_mapCoord (ha _ hcalls _ (List.mem_map_of_mem hx))
    | multiPoint cs =>
      have hcalls := calls_points cs
      refine (judged_points cs).told_of_steady hn hcalls
        (Effect.steady_mapFrom pointArgs cs 0 [] ?_) fun ds _ => .mapPoints
      intro x hx
      exact steady_mapCoord (ha _ hcalls _ (List.mem_map_of_mem hx))
    | collection gs =>
      refine (judged_members gs).told_of_steady hn rfl
        (Effect.steady_mapFrom elementArgs gs 0 [] ?_) fun gs' _ => .mapMembers
      intro x hx
      exact steady_mapMember (ha _ rfl _ (List.mem_map_of_mem hx))
    | _ => exact .refused rfl
  | _ => exact .refused rfl

theorem told_filter (hn : h.Numbered) {source : Value}
    (ha : (filter source).Alone h ctx f line lone) :
    (filter source).Told lone line (((filter source).perform ctx (.closure f) line).runOn h).1 := by
  cases source with
  | geometry g =>
    cases g with
    | lineString cs =>
      have hcalls := calls_points cs
      refine (judged_filter _).told_of_steady hn hcalls
        (Effect.steady_filterFrom pointArgs cs 0 [] ?_) fun bs _ => .filterLine
      intro x hx
      exact (ha _ hcalls _ (List.mem_map_of_mem hx)).judge Value.asBool_blank line
    | multiPoint cs =>
      have hcalls := calls_points cs
      refine (judged_filter _).told_of_steady hn hcalls
        (Effect.steady_filterFrom pointArgs cs 0 [] ?_) fun bs _ => .filterPoints
      intro x hx
      exact (ha _ hcalls _ (List.mem_map_of_mem hx)).judge Value.asBool_blank line
    | collection gs =>
      refine (judged_filter _).told_of_steady hn rfl
        (Effect.steady_filterFrom elementArgs gs 0 [] ?_) fun bs _ => .filterMembers
      intro x hx
      exact (ha _ rfl _ (List.mem_map_of_mem hx)).judge Value.asBool_blank line
    | _ => exact .refused rfl
  | _ => exact .refused rfl

theorem told_deepMap (hn : h.Numbered) {source : Value}
    (ha : (deepMap source).Alone h ctx f line lone) :
    (deepMap source).Told lone line
      (((deepMap source).perform ctx (.closure f) line).runOn h).1 := by
  cases source with
  | geometry g =>
    have hperform : (deepMap (.geometry g)).perform ctx (.closure f) line = do
        return .geometry (g.refill (← mapFrom
          (mapCoord line (ctx.callElement (.closure f) line)) 0 g.coords [])) := deepMap_eq _ g
    rw [hperform]
    refine (judged_deepMap _).told_of_steady hn rfl
      (Effect.steady_mapFrom pointArgs g.coords 0 [] ?_) ?_
    · intro x hx
      exact steady_mapCoord (ha _ rfl _ (List.mem_map_of_mem hx))
    · intro ds hds
      refine .deepMap (Geometry.coords_refill g ds ?_)
      simpa using hds
  | _ => exact .refused rfl

theorem told_generate (hn : h.Numbered) {count : Value}
    (ha : (generate count).Alone h ctx f line lone) :
    (generate count).Told lone line
      (((generate count).perform ctx (.closure f) line).runOn h).1 := by
  cases hcount : repetitions count with
  | error fault =>
    have hperform : (generate count).perform ctx (.closure f) line = .fail fault line := by
      simp only [perform, Context.generate, Pipeline.generate, hcount]
      rfl
    rw [hperform]
    exact .refused (by rw [calls, hcount]; rfl)
  | ok n =>
    have hcalls : (generate count).calls = .ok ((List.range' 0 n).map indexArgs) := by
      rw [calls, hcount, ← List.range_eq_range']
      rfl
    have hperform : (generate count).perform ctx (.closure f) line = do
        return .geometry (.collection (← repeatFrom line
          (fun i => ctx.call (.closure f) (indexArgs i) line) n 0 [])) := by
      simp only [perform, Context.generate, Pipeline.generate, hcount]
      rfl
    rw [hperform]
    refine (judged_generate _).told_of_steady hn hcalls (Effect.steady_repeatFrom n 0 [] ?_) ?_
    · intro i hi
      exact steady_repeated (ha _ hcalls _ (List.mem_map_of_mem hi))
    · intro gs hgs
      refine .generate ?_
      rw [hcount]
      simpa using hgs.symm

end Walks

/-! ## The theorem -/

theorem plain_elementArgs (g : Geometry) (i : Nat) :
    ∀ a ∈ elementArgs g i, a.isClosure = false := by
  intro a ha
  rcases List.mem_pair.1 ha with rfl | rfl <;> rfl

/-- No callback is called with a closure. -/
theorem plain_of_calls {w : Walk} {calls : List (List Value)} (hcalls : w.calls = .ok calls) :
    ∀ args ∈ calls, ∀ a ∈ args, a.isClosure = false := by
  intro args hargs
  cases w with
  | map source | filter source =>
    rw [Walk.calls] at hcalls
    split at hcalls
    · cases hcalls
      obtain ⟨x, -, rfl⟩ := List.mem_map.1 hargs
      exact plain_elementArgs x.1 x.2
    · cases hcalls
  | deepMap source =>
    cases source with
    | geometry g =>
      cases hcalls
      obtain ⟨x, -, rfl⟩ := List.mem_map.1 hargs
      exact plain_elementArgs (.point x.1) x.2
    | _ => cases hcalls
  | generate count =>
    rw [Walk.calls] at hcalls
    cases hcount : repetitions count with
    | error fault =>
      rw [hcount] at hcalls
      cases hcalls
    | ok n =>
      rw [hcount] at hcalls
      cases hcalls
      obtain ⟨i, -, rfl⟩ := List.mem_map.1 hargs
      intro a ha
      rw [List.mem_singleton.1 ha]
      rfl

/-- The body draws all random numbers of a call. -/
theorem draws_callAt {h : Heap} {f : Closure} (limit allowed : Nat) (args : List Value)
    (line : Nat) : ((callAt limit (allowed + 1) f args line).runOn h).2.draws =
      ((f.lambda.body.eval ⟨callAt limit allowed, f.lambda.origin.program, h.next⟩).runOn
        (h.enter f args).2).2.draws := by
  rw [runOn_callAt_succ]
  dsimp only
  rw [Heap.leave_eq]

/-- **Callbacks do not see each other**, where the lone calls draw no random number. The heap is any
heap whose numbers have been handed out, as in every session. -/
theorem callbacks_apart {h : Heap} {f : Closure} (hn : h.Numbered) (hf : f.scope < h.next)
    (w : Walk) (limit allowed program : Nat) (scope : ScopeId) (line : Nat)
    (hstill : ∀ calls, w.calls = .ok calls → ∀ args ∈ calls,
      ((callAt limit allowed f args line).runOn h).2.draws.drawn = h.draws.drawn) :
    w.Told (fun args => ((callAt limit allowed f args line).runOn h).1) line
      ((w.perform ⟨callAt limit allowed, program, scope⟩ (.closure f) line).runOn h).1 := by
  have ha : w.Alone h ⟨callAt limit allowed, program, scope⟩ f line
      fun args => ((callAt limit allowed f args line).runOn h).1 := by
    intro calls hcalls args hargs
    exact Heap.Since.answers_callAt hn hf (plain_of_calls hcalls args hargs)
      (hstill calls hcalls args hargs)
  cases w with
  | map source => exact told_map hn ha
  | filter source => exact told_filter hn ha
  | deepMap source => exact told_deepMap hn ha
  | generate count => exact told_generate hn ha

/-- A callback that binds a function and a name of its own for each member. -/
theorem callbacks_apart_members :
    let h := (Heap.start true 0).2
    let p : Position := .start
    let f : Closure := ⟨⟨["x", "i"], .seq [.decl "g" (.function ["a"] (.ident "a" p) p) p,
      .decl "y" (.ident "x" p) p, .ident "y" p] p, ⟨0, p⟩⟩, 0⟩
    let w : Walk := .map (.geometry (.collection [.lineString [], .collection []]))
    h.Numbered ∧ f.scope < h.next ∧ w.Told (fun args => ((callAt 1 1 f args 1).runOn h).1) 1
      ((w.perform ⟨callAt 1 1, 0, 0⟩ (.closure f) 1).runOn h).1 := by
  intro h p f w
  have hn : h.Numbered := numbered_start true 0
  have hf : f.scope < h.next := by decide +kernel
  refine ⟨hn, hf, callbacks_apart hn hf w 1 1 0 0 1 ?_⟩
  intro calls hcalls
  cases hcalls
  refine List.forall_mem_cons.2 ⟨?_, List.forall_mem_singleton.2 ?_⟩
  · rw [draws_callAt]
    decide +kernel
  · rw [draws_callAt]
    decide +kernel

end Walk

end GeoScript
