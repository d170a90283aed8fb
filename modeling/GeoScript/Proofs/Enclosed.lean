import GeoScript.Proofs.Constructs
import GeoScript.Proofs.Joining

/-!
# Reading in parentheses

**Alone.** What starts with an opening parenthesis and ends with the closing one can be read on its
own, with nothing but an end mark behind it (`Alone`).

**In place.** The same tokens may stand at other places, behind other tokens and in front of others.
As long as a parenthesis is open, a reader sees no token but those that it saw before
(`Parallel.Inside`): the sign behind the first parenthesis is a sign behind a parenthesis in both
readings, and the count of brackets keeps both readers off what follows the last one.

**Theorem (`Alone.group`, `Alone.arguments`).** An expression in parentheses and the arguments of a
call are read in place as they are read alone.
-/

namespace GeoScript

open Token (Kind)
open TokenReader Grammar

/-! ## What readers that succeed have read -/

namespace TokenReader

variable {α β : Type} {c c' : Cursor} {m m' : Memory}

theorem bind_eq_ok_iff {p : TokenReader α} {f : α → TokenReader β} {b : β} :
    (p >>= f) c m = (.ok b c', m') ↔
      ∃ a c₁ m₁, p c m = (.ok a c₁, m₁) ∧ f a c₁ m₁ = (.ok b c', m') := by
  constructor
  · intro h
    change TokenReader.bind p f c m = _ at h
    unfold TokenReader.bind at h
    split at h
    · next a c₁ m₁ hp => exact ⟨a, c₁, m₁, hp, h⟩
    · cases h
    · cases h
  · intro h
    obtain ⟨a, c₁, m₁, hp, hf⟩ := h
    rw [bind_eq hp, hf]

theorem bind_error {p : TokenReader α} {f : α → TokenReader β} {e : SyntaxError}
    (h : p c m = (.error e, m')) : (p >>= f) c m = (.error e, m') := by
  show TokenReader.bind p f c m = _
  rw [TokenReader.bind, h]

theorem expect_bind (k : Kind) (f : Unit → TokenReader β) (c : Cursor) (m : Memory) :
    (expect k >>= f) c m = if c.kind = k then f () c.advance m
      else (.error ⟨.missing k c.kind, c.token.position⟩, m) := by
  show TokenReader.bind (expect k) f c m = _
  simp only [TokenReader.bind, expect, beq_iff_eq]
  split_ifs <;> rfl

/-- One step of a list. -/
theorem items_eq_ok_iff {item : TokenReader α} {n : Nat} {done as : List α} :
    items item (n + 1) done c m = (.ok as c', m') ↔
      ∃ a c₁ m₁, item c m = (.ok a c₁, m₁) ∧
        (c₁.kind = .symbol .comma ∧ items item n (a :: done) c₁.advance m₁ = (.ok as c', m') ∨
          c₁.kind = .symbol .rparen ∧ as = (a :: done).reverse ∧ c' = c₁.advance ∧ m' = m₁) := by
  rw [items, bind_eq_ok_iff]
  refine exists_congr fun a => exists_congr fun c₁ => exists_congr fun m₁ => and_congr_right fun _ => ?_
  rw [accept_bind]
  by_cases hcomma : c₁.kind = .symbol .comma
  · simp [hcomma]
  · simp only [hcomma, if_false, false_and, false_or, Bool.false_eq_true]
    rw [expect_bind]
    by_cases hclose : c₁.kind = .symbol .rparen
    · rw [if_pos hclose]
      constructor
      · intro h
        cases h
        exact ⟨hclose, rfl, rfl, rfl⟩
      · intro h
        obtain ⟨-, rfl, rfl, rfl⟩ := h
        rfl
    · rw [if_neg hclose]
      simp [hclose]

end TokenReader

namespace Grammar

variable {n : Nat} {sub : Goal → TokenReader Expr} {c c' : Cursor} {m m' : Memory}

theorem group_eq_ok_iff {e : Expr} : group sub c m = (.ok e c', m') ↔
    ∃ c₁, sub .expression c.advance m = (.ok e c₁, m') ∧ c₁.kind = .symbol .rparen ∧
      c' = c₁.advance := by
  have hgroup : group sub c m =
      (sub .expression >>= fun e => expect (.symbol .rparen) >>= fun _ => pure e) c.advance m := rfl
  rw [hgroup, bind_eq_ok_iff]
  constructor
  · intro h
    obtain ⟨a, c₁, m₁, ha, hclose⟩ := h
    rw [expect_bind] at hclose
    split_ifs at hclose with hk
    · cases hclose
      exact ⟨c₁, ha, hk, rfl⟩
    · cases hclose
  · intro h
    obtain ⟨c₁, ha, hk, rfl⟩ := h
    refine ⟨e, c₁, m', ha, ?_⟩
    rw [expect_bind, if_pos hk]
    rfl

theorem arguments_eq_ok_iff {es : List Expr} : arguments n sub c m = (.ok es c', m') ↔
    c.kind = .symbol .lparen ∧
      (c.advance.kind = .symbol .rparen ∧ es = [] ∧ c' = c.advance.advance ∧ m' = m ∨
        c.advance.kind ≠ .symbol .rparen ∧
          items (sub .expression) n [] c.advance m = (.ok es c', m')) := by
  have harguments : arguments n sub c m = (expect (.symbol .lparen) >>= fun _ =>
      accept (.symbol .rparen) >>= fun closed =>
        if closed then pure [] else items (sub .expression) n []) c m := rfl
  rw [harguments, expect_bind]
  by_cases hopen : c.kind = .symbol .lparen
  · rw [if_pos hopen, accept_bind]
    by_cases hclose : c.advance.kind = .symbol .rparen
    · simp only [hopen, hclose, if_true, true_and, ne_eq, not_true, false_and, or_false]
      constructor
      · intro h
        cases h
        exact ⟨rfl, rfl, rfl⟩
      · intro h
        obtain ⟨rfl, rfl, rfl⟩ := h
        rfl
    · simp [hopen, hclose]
  · rw [if_neg hopen]
    simp [hopen]

end Grammar

/-! ## Tokens at other places -/

/-- Tokens touch at the other places if they do where they are. -/
def KeepsTouching (f : Position → Position) (ts : List Token) : Prop :=
  ∀ t ∈ ts, ∀ u ∈ ts, (t.moved f).touches (u.moved f) = t.touches u

theorem keepsTouching_id (ts : List Token) : KeepsTouching id ts := fun _ _ _ _ => rfl

/-! ## Side by side in parentheses -/

namespace Parallel

variable {f : Position → Position} {ts before more : List Token} {e t : Token}

/-- The cursors are in front of the same token of `ts`, with one bracket more open than `j`. The first
list ends behind `ts`; in the second one the tokens stand at other places, between `before` and
`more`. -/
def Inside (f : Position → Position) (ts before more : List Token) (e : Token) (j : Nat)
    (c d : Cursor) : Prop :=
  ∃ passed u rest, ts = passed ++ u :: rest ∧ c = .behind passed (u :: (rest ++ [e])) ∧
    d = .behind (before ++ passed.map (Token.moved f))
      (u.moved f :: (rest.map (Token.moved f) ++ more)) ∧
    excess passed = (j + 1 : Nat)

section

variable {j : Nat} {c d : Cursor}

theorem Inside.kind (h : Inside f ts before more e j c d) : d.kind = c.kind := by
  obtain ⟨passed, u, rest, -, rfl, rfl, -⟩ := h
  rfl

/-- In front of a token that opens the first bracket. -/
theorem inside_opened {o : Token} (ho : o.kind = .symbol .lparen) (hexcess : excess (o :: ts) = 0) :
    Inside f (o :: ts) before more e 0 (Cursor.start (o :: ts ++ [e])).advance
      (Cursor.behind before ((o :: ts).map (Token.moved f) ++ more)).advance := by
  cases ts with
  | nil => simp [excess, ho, Token.Turn.rise] at hexcess
  | cons u us =>
    refine ⟨[o], u, us, rfl, ?_, ?_, by simp [excess, ho, Token.Turn.rise]⟩
    · exact Cursor.advance_behind [] [] o u _
    · exact Cursor.advance_behind before [] (o.moved f) (u.moved f) _

/-- As long as a bracket is open, the token is not the last one. -/
theorem Inside.advance (hexcess : excess ts = 0) (h : Inside f ts before more e j c d) {i : Nat}
    {turn : Token.Turn} (hk : c.kind.turn = turn) (hi : (j : Int) + turn.rise = i) :
    Inside f ts before more e i c.advance d.advance := by
  obtain ⟨passed, u, rest, rfl, rfl, rfl, hj⟩ := h
  have hu : u.kind.turn = turn := hk
  have hpassed : excess (passed ++ [u]) = (i + 1 : Nat) := by
    rw [excess_concat, hj, hu]
    omega
  cases rest with
  | nil =>
    rw [hpassed] at hexcess
    omega
  | cons v rest =>
    refine ⟨passed ++ [u], v, rest, by simp, ?_, ?_, hpassed⟩
    · exact Cursor.advance_behind passed [] u v _
    · rw [List.map_append, ← List.append_assoc]
      exact Cursor.advance_behind _ [] (u.moved f) (v.moved f) _

/-- In front of the last token, the second cursor goes on where the first one is at the end. -/
theorem Inside.close (h : Inside f ts before (t :: more) e j c d) (hc : c.advance = .behind ts [e]) :
    d.advance = .behind (before ++ ts.map (Token.moved f)) (t :: more) := by
  obtain ⟨passed, u, rest, rfl, rfl, rfl, -⟩ := h
  rw [Cursor.advance_behind passed rest u e []] at hc
  have hrest : rest = [] := by simpa [Cursor.behind] using congrArg Cursor.rest hc
  subst hrest
  have hadvance := Cursor.advance_behind (before ++ passed.map (Token.moved f)) [] (u.moved f) t more
  rw [List.nil_append] at hadvance
  rw [List.map_nil, List.nil_append, hadvance]
  simp

theorem Inside.sign (hexcess : excess ts = 0) (hf : KeepsTouching f ts)
    (h : Inside f ts before more e j c d) (hk : c.kind.turn = .stays) :
    d.atCoordinateSign = c.atCoordinateSign := by
  have hstays : (j : Int) + Token.Turn.stays.rise = j := by simp [Token.Turn.rise]
  obtain ⟨passed', u', rest', -, hc', -⟩ := h.advance hexcess hk hstays
  obtain ⟨passed, u, rest, hts, rfl, rfl, hj⟩ := h
  cases rest with
  | nil =>
    -- The last token closes a bracket.
    have hlen := congrArg (fun c => c.rest.length) hc'
    rw [Cursor.advance_behind passed [] u e []] at hlen
    simp [Cursor.behind] at hlen
  | cons v rest =>
    have hmem : ∀ t ∈ passed ++ [u, v], t ∈ ts := by
      intro t ht
      rw [hts]
      simp only [List.mem_append, List.mem_cons, List.not_mem_nil, or_false] at ht ⊢
      tauto
    have hnumber : (u.moved f).touches (v.moved f) = u.touches v :=
      hf u (hmem u (by simp)) v (hmem v (by simp))
    rcases List.eq_nil_or_concat passed with rfl | ⟨ps, t, rfl⟩
    · simp [excess] at hj
      omega
    · have htouch : (t.moved f).touches (u.moved f) = t.touches u :=
        hf t (hmem t (by simp)) u (hmem u (by simp))
      simp [Cursor.atCoordinateSign, Cursor.behind, Cursor.token, hnumber, htouch]

end

/-- Two readings of what stands in parentheses, one of them alone. -/
def enclosed (f : Position → Position) (before : List Token) (he : e.kind = .eof)
    (hexcess : excess ts = 0) (hf : KeepsTouching f ts)
    (hmore : ∀ t ∈ more.head?, t.kind ≠ .symbol .equal) : Parallel where
  Abreast := Inside f ts before more e
  Recalls m m' := m = none ∧ m' = none
  place := f
  place' := id
  Blames _ _ := True
  Whole _ := True
  whole_succ _ := trivial
  nonempty := by
    rintro j c d ⟨passed, u, rest, -, rfl, -⟩
    exact List.cons_ne_nil _ _
  kind h := .inl h.kind
  assigns := by
    rintro j c d ⟨passed, u, rest, -, rfl, rfl, -⟩ -
    cases rest with
    | cons v rest => rfl
    | nil =>
      cases more with
      | nil => simp [Cursor.secondKind?, Cursor.behind, he]
      | cons t more =>
        have ht : t.kind ≠ .symbol .equal := hmore t rfl
        simp [Cursor.secondKind?, Cursor.behind, he, ht]
  sign h hk := h.sign hexcess hf (by rcases hk with hk | hk <;> rw [hk] <;> rfl)
  placed := by
    rintro j c d ⟨passed, u, rest, -, rfl, rfl, -⟩ -
    rfl
  unwanted _ _ := trivial
  lacking _ _ := trivial
  opens h hk := h.advance hexcess hk (by simp [Token.Turn.rise])
  closes h hk := h.advance hexcess hk (Token.Turn.add_rise_closes _)
  stays h hk := h.advance hexcess hk (by simp [Token.Turn.rise])
  shorter := by
    rintro j c d ⟨passed, u, rest, -, rfl, -⟩ -
    rw [Cursor.advance_behind passed rest u e []]
    exact Nat.lt_succ_self _

section

variable {he : e.kind = .eof} {hexcess : excess ts = 0} {hf : KeepsTouching f ts}
  {hmore : ∀ t ∈ more.head?, t.kind ≠ .symbol .equal}

/-- Where the first of two readings succeeds, the second one gives the same at other places. -/
theorem Matches.enclosed_ok {j left : Nat} {r : Outcome Expr × Memory} {a : Expr} {c : Cursor}
    {m : Memory} (h : (enclosed f before he hexcess hf hmore).Matches j left Expr.placed
      (.ok a c, m) r) :
    ∃ d, r = (.ok (a.placed f) d, none) ∧ m = none ∧ Inside f ts before more e j c d ∧
      c.rest.length ≤ left := by
  cases h with
  | @ok _ b _ d _ _ hab hcd hleft hm =>
    obtain ⟨rfl, rfl⟩ := hm
    obtain rfl : b = a.placed f := (Expr.placed_id b).symm.trans hab
    exact ⟨d, rfl, rfl, hcd, hleft⟩

/-- The items of a list that ends where the tokens do. -/
theorem items_enclosed {hmore : ∀ u ∈ (t :: more).head?, u.kind ≠ .symbol .equal} {most n n' : Nat}
    {sub sub' : Goal → TokenReader Expr} {c d : Cursor}
    (hsub : (enclosed f before he hexcess hf hmore).Nested most n n' sub sub')
    (hcd : Inside f ts before (t :: more) e 0 c d) (hmost : c.rest.length ≤ most) {k k' : Nat}
    (hk' : c.rest.length ≤ k') {done es : List Expr} {m : Memory}
    (h : items (sub .expression) k done c none = (.ok es (.behind ts [e]), m)) :
    items (sub' .expression) k' (done.map (Expr.placed f)) d none =
      (.ok (es.map (Expr.placed f)) (.behind (before ++ ts.map (Token.moved f)) (t :: more)), none) := by
  induction k generalizing c d k' done with
  | zero => cases h
  | succ k ih =>
    have hpos := List.length_pos_iff.2 ((enclosed f before he hexcess hf hmore).nonempty hcd)
    obtain ⟨k', rfl⟩ := Nat.exists_eq_succ_of_ne_zero (show k' ≠ 0 by omega)
    obtain ⟨a, c₁, m₁, ha, hnext⟩ := items_eq_ok_iff.1 h
    have hagree := hsub.goal .expression nofun hcd hmost none none ⟨rfl, rfl⟩
    rw [ha] at hagree
    obtain ⟨d₁, hd, rfl, hcd₁, hle⟩ := hagree.enclosed_ok
    refine items_eq_ok_iff.2 ⟨a.placed f, d₁, none, hd, ?_⟩
    rcases hnext with ⟨hcomma, hitems⟩ | ⟨hclose, rfl, hend, -⟩
    · have hne : c₁.kind ≠ .eof := by simp [hcomma]
      have hlt := (enclosed f before he hexcess hf hmore).shorter hcd₁ hne
      have hcd₂ := (enclosed f before he hexcess hf hmore).stays hcd₁ (by simp [hcomma])
      refine .inl ⟨hcd₁.kind.trans hcomma, ?_⟩
      exact ih hcd₂ (by omega) (by omega) hitems
    · refine .inr ⟨hcd₁.kind.trans hclose, ?_, (hcd₁.close hend.symm).symm, rfl⟩
      rw [List.map_reverse, List.map_cons]

end

end Parallel

/-! ## Alone and in place -/

/-- The reader takes the tokens when nothing but an end mark follows. It is unrolled once for every
token. -/
def Alone {α : Type} (p : Nat → TokenReader α) (ts : List Token) (a : α) : Prop :=
  ∃ e, e.kind = .eof ∧ p ts.length (.start (ts ++ [e])) none = (.ok a (.behind ts [e]), none)

section

variable {o e t : Token} {ts before more : List Token} {f : Position → Position} {n : Nat}

/-- What a reader takes in front of an end mark has no open brackets in the end. -/
theorem excess_of_agree {α γ : Type} (view : View α γ) {p : TokenReader α} {a : α}
    (he : e.kind = .eof) (h : p (.start (ts ++ [e])) none = (.ok a (.behind ts [e]), none))
    (hagree : ∀ K : Parallel, (∀ m m', K.Recalls m m' ↔ m = none ∧ m' = none) →
      K.Abreast 0 (.start (ts ++ [e])) (.start (ts ++ [e])) →
      K.Agree 0 (.start (ts ++ [e])) (.start (ts ++ [e])) (ts ++ [e]).length view p p) :
    excess ts = 0 := by
  have hcd : Parallel.InFront ts e e [] 0 (.start (ts ++ [e])) (.start (ts ++ [e])) :=
    ⟨[], ts, rfl, rfl, rfl, rfl⟩
  have hmatches := hagree (.inFront [] he (.inl he) id (fun _ _ => rfl) fun _ => rfl)
    (fun _ _ => Iff.rfl) hcd none none ⟨rfl, rfl⟩
  rw [h] at hmatches
  cases hmatches with
  | ok _ habreast =>
    obtain ⟨passed, rest, rfl, hc, -, hj⟩ := habreast
    have hrest : rest = [] := by simpa [Cursor.behind] using (congrArg Cursor.rest hc).symm
    rw [hrest, List.append_nil]
    exact hj

/-- Where no more tokens are to be read than were alone, the parsers behind the readers agree. -/
theorem nested_alone {K : Parallel} (hnone : ∀ m m', K.Recalls m m' ↔ m = none ∧ m' = none)
    (hn : ts.length ≤ n) : K.Nested ts.length (ts.length + 1) (n + 1) (run ts.length) (run n) :=
  Parallel.nested_run (Parallel.ready_plain hnone) (Nat.le_refl _) hn

theorem excess_of_group {a : Expr} (ho : o.kind = .symbol .lparen) (he : e.kind = .eof)
    (h : group (run (o :: ts).length) (.start (o :: ts ++ [e])) none =
      (.ok a (.behind (o :: ts) [e]), none)) : excess (o :: ts) = 0 := by
  refine excess_of_agree Expr.placed he h fun K hnone hcd => Parallel.agree_next_bind ?_
  have hlt := K.shorter hcd (by simp [Cursor.start, Cursor.kind, Cursor.token, ho])
  have hopens := K.opens hcd (by simp [Cursor.start, Cursor.kind, Cursor.token, ho])
  have hmost : (Cursor.start (o :: ts ++ [e])).advance.rest.length ≤ (o :: ts).length := by
    simpa [Cursor.start, Nat.lt_succ_iff] using hlt
  exact ((nested_alone hnone (Nat.le_refl _)).agree_group hopens hmost).mono (Nat.le_of_lt hlt)

theorem excess_of_arguments {as : List Expr} (he : e.kind = .eof)
    (h : arguments ((o :: ts).length + 1) (run (o :: ts).length) (.start (o :: ts ++ [e])) none =
      (.ok as (.behind (o :: ts) [e]), none)) : excess (o :: ts) = 0 := by
  refine excess_of_agree (View.list Expr.placed) he h fun K hnone hcd => ?_
  have hmost : (Cursor.start (o :: ts ++ [e])).rest.length ≤ (o :: ts).length + 1 := by
    simp [Cursor.start]
  exact ((nested_alone hnone (Nat.le_refl _)).agree_arguments hcd hmost).mono (Nat.sub_le _ _)

theorem length_rest_opened :
    (Cursor.start (o :: ts ++ [e])).advance.rest.length = (o :: ts).length := by
  rw [show (Cursor.start (o :: ts ++ [e])).advance = .behind [o] (ts ++ [e]) from
    Cursor.advance_behind [] ts o e []]
  simp [Cursor.behind]

variable (before more) (hf : KeepsTouching f (o :: ts)) (ht : t.kind ≠ .symbol .equal)
  (hn : (o :: ts).length ≤ n)
include hf ht hn

/-- **An expression in parentheses** is read in place as it is read alone. -/
theorem Alone.group {a : Expr} (ho : o.kind = .symbol .lparen)
    (h : Alone (fun n => group (run n)) (o :: ts) a) :
    group (run n) (.behind before ((o :: ts).map (Token.moved f) ++ t :: more)) none =
      (.ok (a.placed f) (.behind (before ++ (o :: ts).map (Token.moved f)) (t :: more)), none) := by
  obtain ⟨e, he, hrun⟩ := h
  have hexcess := excess_of_group ho he hrun
  have hmore : ∀ u ∈ (t :: more).head?, u.kind ≠ .symbol .equal := by simpa using ht
  have hnested := nested_alone (K := .enclosed f before he hexcess hf hmore) (fun _ _ => Iff.rfl) hn
  have hcd : Parallel.Inside f (o :: ts) before (t :: more) e 0 _ _ :=
    Parallel.inside_opened ho hexcess
  obtain ⟨c₁, ha, hclose, hend⟩ := group_eq_ok_iff.1 hrun
  have hagree := hnested.goal .expression nofun hcd (Nat.le_of_eq length_rest_opened) none none
    ⟨rfl, rfl⟩
  rw [ha] at hagree
  obtain ⟨d₁, hd, -, hcd₁, -⟩ := hagree.enclosed_ok
  exact group_eq_ok_iff.2 ⟨d₁, hd, hcd₁.kind.trans hclose, (hcd₁.close hend.symm).symm⟩

/-- **The arguments of a call** are read in place as they are read alone. -/
theorem Alone.arguments {as : List Expr}
    (h : Alone (fun n => arguments (n + 1) (run n)) (o :: ts) as) :
    arguments (n + 1) (run n) (.behind before ((o :: ts).map (Token.moved f) ++ t :: more)) none =
      (.ok (as.map (Expr.placed f)) (.behind (before ++ (o :: ts).map (Token.moved f)) (t :: more)),
        none) := by
  obtain ⟨e, he, hrun⟩ := h
  have hexcess := excess_of_arguments he hrun
  have hmore : ∀ u ∈ (t :: more).head?, u.kind ≠ .symbol .equal := by simpa using ht
  have hnested := nested_alone (K := .enclosed f before he hexcess hf hmore) (fun _ _ => Iff.rfl) hn
  obtain ⟨hopen, hread⟩ := arguments_eq_ok_iff.1 hrun
  have ho : o.kind = .symbol .lparen := hopen
  have hcd : Parallel.Inside f (o :: ts) before (t :: more) e 0 _ _ :=
    Parallel.inside_opened ho hexcess
  refine arguments_eq_ok_iff.2 ⟨ho, ?_⟩
  rcases hread with ⟨hclose, rfl, hend, -⟩ | ⟨hclose, hitems⟩
  · exact .inl ⟨hcd.kind.trans hclose, rfl, (hcd.close hend.symm).symm, rfl⟩
  · refine .inr ⟨by rwa [hcd.kind], ?_⟩
    have hfuel : (Cursor.start (o :: ts ++ [e])).advance.rest.length ≤ n + 1 := by
      rw [length_rest_opened]
      omega
    exact Parallel.items_enclosed hnested hcd (Nat.le_of_eq length_rest_opened) hfuel hitems

omit ht hn

theorem Alone.group_moved {a : Expr} (ho : o.kind = .symbol .lparen)
    (h : Alone (fun n => GeoScript.group (run n)) (o :: ts) a) :
    Alone (fun n => GeoScript.group (run n)) ((o :: ts).map (Token.moved f)) (a.placed f) := by
  have hle : (o :: ts).length ≤ ((o :: ts).map (Token.moved f)).length :=
    Nat.le_of_eq (List.length_map _).symm
  refine ⟨⟨.eof, .start, 0⟩, rfl, ?_⟩
  exact h.group [] [] hf (by simp) hle ho

theorem Alone.arguments_moved {as : List Expr}
    (h : Alone (fun n => Grammar.arguments (n + 1) (run n)) (o :: ts) as) :
    Alone (fun n => Grammar.arguments (n + 1) (run n)) ((o :: ts).map (Token.moved f))
      (as.map (Expr.placed f)) := by
  have hle : (o :: ts).length ≤ ((o :: ts).map (Token.moved f)).length :=
    Nat.le_of_eq (List.length_map _).symm
  refine ⟨⟨.eof, .start, 0⟩, rfl, ?_⟩
  exact h.arguments [] [] hf (by simp) hle

end

end GeoScript
