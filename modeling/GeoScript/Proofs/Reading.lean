import GeoScript.Expr.Parser
import GeoScript.Proofs.Scanning
import Mathlib.Data.List.Forall2

/-!
# Reading marked tokens

**Taking.** A reader *takes* marks if it passes just the tokens so marked, whatever stands before
them and whatever follows, as long as the next token is one of those named (`TakesWith`). Readers in
sequence take marks side by side, so that what a nonterminal takes is put together from its parts in
the order of the grammar. In the same way a reader *fails* at marks (`FailsWith`), or it *declines*:
it finds that what it looks for is not there, and passes nothing (`DeclinesWith`).

**Memory.** Which memories are good is left open, as long as readers keep them good. In well-known
text, pairs of coordinates are tried in vain only where no coordinate can start; a memory that holds
such places only is good there, and with it no pair is missed (`GoodMemory`).

**Unrolling.** A reader is given the number of tokens it may count on. Each nonterminal has consumed
a token before it refers back to another, so that the number of unrollings never runs out.
-/

namespace GeoScript

open Token (Kind)

/-! ## Memory -/

/-- Whether a coordinate that is written out can start with a token of this kind. -/
def Token.Kind.startsNumber : Kind → Bool
  | .number _ | .symbol .minus => true
  | _ => false

/-- Pairs were tried in vain only where no coordinate that is written out starts. -/
def GoodMemory (tokens : List Token) (m : Memory) : Prop :=
  ∀ i, m.isFailed i = true → ∀ t, tokens[i]? = some t → t.kind.startsNumber = false

theorem goodMemory_empty (tokens : List Token) : GoodMemory tokens (some ∅) := by
  intro i hi
  simp [Memory.isFailed] at hi

theorem GoodMemory.addFailed {tokens : List Token} {m : Memory} {i : Nat} {t : Token}
    (hm : GoodMemory tokens m) (ht : tokens[i]? = some t) (hk : t.kind.startsNumber = false) :
    GoodMemory tokens (m.addFailed i) := by
  intro j hj u hu
  rcases Memory.isFailed_addFailed hj with rfl | hj
  · obtain rfl := Option.some.inj (ht.symm.trans hu)
    exact hk
  · exact hm j hj u hu

/-! ## Taking -/

namespace TokenReader

variable {α β : Type} {good : Memory → Prop} {tokens : List Token} {n : Nat} {ms ns : List Mark}
  {next next' : Kind → Prop} {P : α → Prop} {Q : β → Prop}

/-- The reader passes the tokens marked `ms` in front of a token of a kind in `next`, if there are
fewer than `n` tokens to the end, and gives something as promised by `P`. The memory is and stays
good. -/
def TakesWith (good : Memory → Prop) (tokens : List Token) (n : Nat) (p : TokenReader α)
    (ms : List Mark) (next : Kind → Prop) (P : α → Prop) : Prop :=
  ∀ (previous : Option Token) (ts : List Token) (u : Token) (us : List Token) (i : Nat)
    (m : Memory), tokens.drop i = ts ++ u :: us → Marked previous ms ts → next u.kind →
    good m → ts.length + us.length < n →
      ∃ a m', p ⟨previous, ts ++ u :: us, i⟩ m =
          (.ok a ⟨ts.getLast?.or previous, u :: us, i + ts.length⟩, m') ∧
        good m' ∧ P a

/-- Taking with a good memory. -/
abbrev Takes (tokens : List Token) (n : Nat) (p : TokenReader α) (ms : List Mark)
    (next : Kind → Prop) (P : α → Prop) : Prop := TakesWith (GoodMemory tokens) tokens n p ms next P

/-- What follows the marks `ns`, or the tokens of a kind in `next'` if there are none, is of a kind
in `next`. -/
def Follows (next : Kind → Prop) (ns : List Mark) (next' : Kind → Prop) : Prop :=
  match ns with
  | [] => ∀ k, next' k → next k
  | m :: _ => next m.kind

theorem TakesWith.imp {p : TokenReader α} {R : α → Prop} (hp : TakesWith good tokens n p ms next P)
    (hn : ∀ k, next' k → next k) (hr : ∀ a, P a → R a) : TakesWith good tokens n p ms next' R := by
  intro previous ts u us i m hd hm hu hg hlt
  obtain ⟨a, m', hrun, hg', ha⟩ := hp previous ts u us i m hd hm (hn _ hu) hg hlt
  exact ⟨a, m', hrun, hg', hr a ha⟩

/-- In front of fewer tokens. -/
theorem TakesWith.before {p : TokenReader α} (hp : TakesWith good tokens n p ms next P)
    (hn : ∀ k, next' k → next k) : TakesWith good tokens n p ms next' P :=
  hp.imp hn fun _ h => h

theorem TakesWith.mono {p : TokenReader α} {n' : Nat} (hp : TakesWith good tokens n p ms next P)
    (hn : n' ≤ n) : TakesWith good tokens n' p ms next P :=
  fun previous ts u us i m hd hm hu hg hlt =>
    hp previous ts u us i m hd hm hu hg (Nat.lt_of_lt_of_le hlt hn)

theorem takes_pure {a : α} (ha : P a) : TakesWith good tokens n (pure a) [] next P := by
  intro previous ts u us i m _ hm _ hg _
  obtain rfl := List.eq_nil_of_length_eq_zero hm.length_eq
  exact ⟨a, m, rfl, hg, ha⟩

/-- Running two readers in sequence. -/
theorem bind_eq {p : TokenReader α} {f : α → TokenReader β} {c c' : Cursor} {m m' : Memory} {a : α}
    (h : p c m = (.ok a c', m')) : (p >>= f) c m = f a c' m' := by
  show TokenReader.bind p f c m = _
  rw [TokenReader.bind, h]

/-- The token behind those that a reader is to take: the first of the other marks, or what follows
them. -/
theorem Follows.exists_token {previous : Option Token} {ts : List Token} {u : Token}
    (h : Follows next ns next') (hm : Marked previous ns ts) (hu : next' u.kind) (us : List Token) :
    ∃ v vs, ts ++ u :: us = v :: vs ∧ next v.kind := by
  cases ts with
  | nil =>
    obtain rfl := List.eq_nil_of_length_eq_zero hm.length_eq.symm
    exact ⟨u, us, rfl, h _ hu⟩
  | cons v ts =>
    cases ns with
    | nil => cases hm
    | cons m ns => exact ⟨v, ts ++ u :: us, rfl, hm.1.kind ▸ h⟩

/-- Behind the marks that the first of two readers takes, the second one goes on. -/
theorem TakesWith.step {p : TokenReader α} (hp : TakesWith good tokens n p ms next P)
    (hn : Follows next ns next') {previous : Option Token} {ts : List Token} {u : Token}
    {us : List Token} {i : Nat} {m : Memory} (hd : tokens.drop i = ts ++ u :: us)
    (hm : Marked previous (ms ++ ns) ts) (hu : next' u.kind) (hg : good m)
    (hlt : ts.length + us.length < n) :
    ∃ a ts₁ ts₂ m₁, ts = ts₁ ++ ts₂ ∧ ts₁.length = ms.length ∧ P a ∧ good m₁ ∧
      tokens.drop (i + ts₁.length) = ts₂ ++ u :: us ∧ Marked (ts₁.getLast?.or previous) ns ts₂ ∧
      ∀ {β : Type} (f : α → TokenReader β), (p >>= f) ⟨previous, ts ++ u :: us, i⟩ m =
        f a ⟨ts₁.getLast?.or previous, ts₂ ++ u :: us, i + ts₁.length⟩ m₁ := by
  obtain ⟨ts₁, ts₂, rfl, hm₁, hm₂⟩ := hm.split
  obtain ⟨v, vs, hv, hkind⟩ := hn.exists_token hm₂ hu us
  have hvlen : ts₂.length + us.length = vs.length := by
    have := congrArg List.length hv
    simp at this
    omega
  rw [List.append_assoc, hv] at hd
  obtain ⟨a, m₁, hrun, hg₁, ha⟩ := hp previous ts₁ v vs i m hd hm₁ hkind hg (by
    rw [List.length_append] at hlt
    omega)
  refine ⟨a, ts₁, ts₂, m₁, rfl, hm₁.length_eq, ha, hg₁, ?_, hm₂, fun f => ?_⟩
  · rw [← List.drop_drop, hd, List.drop_left, hv]
  · rw [List.append_assoc, hv, bind_eq hrun]

/-- **Readers in sequence take marks side by side.** -/
theorem TakesWith.bind {p : TokenReader α} {f : α → TokenReader β}
    (hp : TakesWith good tokens n p ms next P) (hn : Follows next ns next')
    (hf : ∀ a, P a → TakesWith good tokens (n - ms.length) (f a) ns next' Q) :
    TakesWith good tokens n (p >>= f) (ms ++ ns) next' Q := by
  intro previous ts u us i m hd hm hu hg hlt
  obtain ⟨a, ts₁, ts₂, m₁, rfl, hlen, ha, hg₁, hd₂, hm₂, hstep⟩ := hp.step hn hd hm hu hg hlt
  rw [List.length_append] at hlt
  obtain ⟨b, m₂, hrun, hg₂, hb⟩ := hf a ha _ ts₂ u us _ m₁ hd₂ hm₂ hu hg₁ (by omega)
  refine ⟨b, m₂, ?_, hg₂, hb⟩
  rw [hstep, hrun, List.length_append, Nat.add_assoc, List.getLast?_append, Option.or_assoc]

/-- A reader that passes nothing, in front of another. -/
theorem TakesWith.bind_nil {p : TokenReader α} {f : α → TokenReader β}
    (hp : TakesWith good tokens n p [] next P) (hn : Follows next ns next')
    (hf : ∀ a, P a → TakesWith good tokens n (f a) ns next' Q) :
    TakesWith good tokens n (p >>= f) ns next' Q :=
  hp.bind hn hf

/-- A reader in front of one that passes nothing. -/
theorem TakesWith.bind_pure {p : TokenReader α} {f : α → TokenReader β}
    (hp : TakesWith good tokens n p ms next P)
    (hf : ∀ a, P a → TakesWith good tokens n (f a) [] next Q) :
    TakesWith good tokens n (p >>= f) ms next Q := by
  have h : TakesWith good tokens n (p >>= f) (ms ++ []) next Q :=
    hp.bind (fun _ hk => hk) fun a ha => (hf a ha).mono (Nat.sub_le _ _)
  rwa [List.append_nil] at h

theorem follows_any : Follows (fun _ => True) ns next := by
  cases ns with
  | nil => exact fun _ _ => trivial
  | cons m ns => trivial

/-- A reader that passes one token, in front of another. -/
theorem TakesWith.bind_cons {p : TokenReader α} {f : α → TokenReader β} {k : Mark}
    (hp : TakesWith good tokens n p [k] (fun _ => True) P)
    (hf : ∀ a, P a → TakesWith good tokens (n - 1) (f a) ns next' Q) :
    TakesWith good tokens n (p >>= f) (k :: ns) next' Q :=
  hp.bind follows_any hf

/-- Nothing has to be shown when there can be no token. -/
theorem takes_of_pos {p : TokenReader α} (hp : 0 < n → TakesWith good tokens n p ms next P) :
    TakesWith good tokens n p ms next P :=
  fun previous ts u us i m hd hm hu hg hlt =>
    hp (Nat.zero_lt_of_lt hlt) previous ts u us i m hd hm hu hg hlt

/-! ## Failing -/

/-- The reader fails at the tokens marked `ms` in front of a token of a kind in `next`. -/
def FailsWith (good : Memory → Prop) (tokens : List Token) (n : Nat) (p : TokenReader α)
    (ms : List Mark) (next : Kind → Prop) : Prop :=
  ∀ (previous : Option Token) (ts : List Token) (u : Token) (us : List Token) (i : Nat)
    (m : Memory), tokens.drop i = ts ++ u :: us → Marked previous ms ts → next u.kind →
    good m → ts.length + us.length < n →
      ∃ e m', p ⟨previous, ts ++ u :: us, i⟩ m = (.error e, m') ∧ good m'

/-- Failing with a good memory. -/
abbrev Fails (tokens : List Token) (n : Nat) (p : TokenReader α) (ms : List Mark)
    (next : Kind → Prop) : Prop := FailsWith (GoodMemory tokens) tokens n p ms next

theorem FailsWith.mono {p : TokenReader α} {n' : Nat} (hp : FailsWith good tokens n p ms next)
    (hn : n' ≤ n) :
    FailsWith good tokens n' p ms next :=
  fun previous ts u us i m hd hm hu hg hlt =>
    hp previous ts u us i m hd hm hu hg (Nat.lt_of_lt_of_le hlt hn)

/-- Two readers in sequence fail where the second one does. -/
theorem TakesWith.bind_fails {p : TokenReader α} {f : α → TokenReader β}
    (hp : TakesWith good tokens n p ms next P) (hn : Follows next ns next')
    (hf : ∀ a, P a → FailsWith good tokens (n - ms.length) (f a) ns next') :
    FailsWith good tokens n (p >>= f) (ms ++ ns) next' := by
  intro previous ts u us i m hd hm hu hg hlt
  obtain ⟨a, ts₁, ts₂, m₁, rfl, hlen, ha, hg₁, hd₂, hm₂, hstep⟩ := hp.step hn hd hm hu hg hlt
  rw [List.length_append] at hlt
  obtain ⟨e, m₂, hrun, hg₂⟩ := hf a ha _ ts₂ u us _ m₁ hd₂ hm₂ hu hg₁ (by omega)
  exact ⟨e, m₂, by rw [hstep, hrun], hg₂⟩

theorem TakesWith.bind_cons_fails {p : TokenReader α} {f : α → TokenReader β} {k : Mark}
    (hp : TakesWith good tokens n p [k] (fun _ => True) P)
    (hf : ∀ a, P a → FailsWith good tokens (n - 1) (f a) ns next') :
    FailsWith good tokens n (p >>= f) (k :: ns) next' :=
  hp.bind_fails follows_any hf

/-- Two readers in sequence fail where the first one does. -/
theorem FailsWith.bind {p : TokenReader α} (hp : FailsWith good tokens n p ms next)
    (f : α → TokenReader β) : FailsWith good tokens n (p >>= f) ms next := by
  intro previous ts u us i m hd hm hu hg hlt
  obtain ⟨e, m', hrun, hg'⟩ := hp previous ts u us i m hd hm hu hg hlt
  refine ⟨e, m', ?_, hg'⟩
  show TokenReader.bind p f _ m = _
  rw [TokenReader.bind, hrun]

/-- A reader that fails at some marks fails if more follow. -/
theorem FailsWith.append {p : TokenReader α} (hp : FailsWith good tokens n p ms next)
    (hn : Follows next ns next') : FailsWith good tokens n p (ms ++ ns) next' := by
  intro previous ts u us i m hd hm hu hg hlt
  obtain ⟨ts₁, ts₂, rfl, hm₁, hm₂⟩ := hm.split
  obtain ⟨v, vs, hv, hkind⟩ := hn.exists_token hm₂ hu us
  have hlen : ts₂.length + us.length = vs.length := by
    have := congrArg List.length hv
    simp at this
    omega
  rw [List.length_append] at hlt
  rw [List.append_assoc, hv] at hd ⊢
  exact hp previous ts₁ v vs i m hd hm₁ hkind hg (by omega)

theorem TakesWith.congr {p q : TokenReader α} {glued : Bool} {k : Kind}
    (hpq : ∀ c m, c.kind = k → p c m = q c m)
    (hq : TakesWith good tokens n q (⟨glued, k⟩ :: ms) next P) :
    TakesWith good tokens n p (⟨glued, k⟩ :: ms) next P := by
  intro previous ts u us i m hd hm hu hg hlt
  cases ts with
  | nil => cases hm
  | cons t ts =>
    rw [hpq ⟨previous, t :: ts ++ u :: us, i⟩ m hm.1.kind]
    exact hq previous (t :: ts) u us i m hd hm hu hg hlt

theorem FailsWith.congr {p q : TokenReader α} {glued : Bool} {k : Kind}
    (hpq : ∀ c m, c.kind = k → p c m = q c m)
    (hq : FailsWith good tokens n q (⟨glued, k⟩ :: ms) next) :
    FailsWith good tokens n p (⟨glued, k⟩ :: ms) next := by
  intro previous ts u us i m hd hm hu hg hlt
  cases ts with
  | nil => cases hm
  | cons t ts =>
    rw [hpq ⟨previous, t :: ts ++ u :: us, i⟩ m hm.1.kind]
    exact hq previous (t :: ts) u us i m hd hm hu hg hlt

/-! ## Declining -/

/-- The reader finds that what it looks for is not there, and passes nothing. -/
def DeclinesWith (good : Memory → Prop) (tokens : List Token) (n : Nat)
    (p : TokenReader (Option α)) (ms : List Mark) (next : Kind → Prop) : Prop :=
  ∀ (previous : Option Token) (ts : List Token) (u : Token) (us : List Token) (i : Nat)
    (m : Memory), tokens.drop i = ts ++ u :: us → Marked previous ms ts → next u.kind →
    good m → ts.length + us.length < n →
      ∃ m', p ⟨previous, ts ++ u :: us, i⟩ m = (.ok none ⟨previous, ts ++ u :: us, i⟩, m') ∧
        good m'

/-- Where the first of two readers declines, the second one takes everything. -/
theorem DeclinesWith.bind {p : TokenReader (Option α)} {f : Option α → TokenReader β}
    (hp : DeclinesWith good tokens n p ms next)
    (hf : TakesWith good tokens n (f none) ms next Q) :
    TakesWith good tokens n (p >>= f) ms next Q := by
  intro previous ts u us i m hd hm hu hg hlt
  obtain ⟨m₁, hrun, hg₁⟩ := hp previous ts u us i m hd hm hu hg hlt
  rw [bind_eq hrun]
  exact hf previous ts u us i m₁ hd hm hu hg₁ hlt

theorem DeclinesWith.bind_none {p : TokenReader (Option α)} {f : Option α → TokenReader (Option β)}
    (hp : DeclinesWith good tokens n p ms next) (hf : f none = pure none) :
    DeclinesWith good tokens n (p >>= f) ms next := by
  intro previous ts u us i m hd hm hu hg hlt
  obtain ⟨m₁, hrun, hg₁⟩ := hp previous ts u us i m hd hm hu hg hlt
  exact ⟨m₁, by rw [bind_eq hrun, hf]; rfl, hg₁⟩

/-- An attempt at what declines behind some marks declines in front of them. -/
theorem TakesWith.attempt_declines {p : TokenReader α} {f : α → TokenReader (Option β)}
    (hp : TakesWith good tokens n p ms (fun _ => True) P)
    (hf : ∀ a, P a → DeclinesWith good tokens (n - ms.length) (f a) ns next) :
    DeclinesWith good tokens n (attempt (p >>= f)) (ms ++ ns) next := by
  intro previous ts u us i m hd hm hu hg hlt
  obtain ⟨a, ts₁, ts₂, m₁, rfl, hlen, ha, hg₁, hd₂, hm₂, hstep⟩ :=
    hp.step follows_any hd hm hu hg hlt
  rw [List.length_append] at hlt
  obtain ⟨m₂, hrun, hg₂⟩ := hf a ha _ ts₂ u us _ m₁ hd₂ hm₂ hu hg₁ (by omega)
  exact ⟨m₂, by rw [attempt, hstep, hrun], hg₂⟩

/-! ## Single tokens -/

theorem takes_next (k : Kind) (glued : Bool) :
    TakesWith good tokens n TokenReader.next [⟨glued, k⟩] next (fun t => t.kind = k) := by
  intro previous ts u us i m _ hm _ hg _
  obtain ⟨t, rfl⟩ := List.length_eq_one_iff.1 hm.length_eq
  exact ⟨t, m, rfl, hg, hm.1.kind⟩

theorem takes_position : TakesWith good tokens n position [] next (fun _ => True) := by
  intro previous ts u us i m _ hm _ hg _
  obtain rfl := List.eq_nil_of_length_eq_zero hm.length_eq
  exact ⟨_, m, rfl, hg, trivial⟩

theorem takes_peekKind : TakesWith good tokens n peekKind [] next next := by
  intro previous ts u us i m _ hm hu hg _
  obtain rfl := List.eq_nil_of_length_eq_zero hm.length_eq
  exact ⟨_, m, rfl, hg, hu⟩

/-- Looking ahead at a token that is marked. -/
theorem TakesWith.bind_peek {f : Kind → TokenReader β} {glued : Bool} {k : Kind}
    (hf : TakesWith good tokens n (f k) (⟨glued, k⟩ :: ns) next Q) :
    TakesWith good tokens n (peekKind >>= f) (⟨glued, k⟩ :: ns) next Q := by
  have hpeek : TakesWith good tokens n peekKind [] (· = k) (· = k) := takes_peekKind
  exact hpeek.bind_nil rfl fun _ h => h ▸ hf

theorem takes_expect (k : Kind) (glued : Bool) :
    TakesWith good tokens n (expect k) [⟨glued, k⟩] next (fun _ => True) := by
  intro previous ts u us i m _ hm _ hg _
  obtain ⟨t, rfl⟩ := List.length_eq_one_iff.1 hm.length_eq
  refine ⟨(), m, ?_, hg, trivial⟩
  have hk : (Cursor.mk previous ([t] ++ u :: us) i).kind = k := hm.1.kind
  rw [expect, hk, if_pos (beq_self_eq_true k)]
  rfl

theorem fails_expect {k l : Kind} (hkl : k ≠ l) (glued : Bool) :
    FailsWith good tokens n (expect l) (⟨glued, k⟩ :: ms) next := by
  intro previous ts u us i m _ hm _ hg _
  cases ts with
  | nil => cases hm
  | cons t ts =>
    refine ⟨⟨.missing l k, t.position⟩, m, ?_, hg⟩
    have hk : (Cursor.mk previous (t :: ts ++ u :: us) i).kind = k := hm.1.kind
    rw [expect, hk, if_neg (by simpa using hkl)]
    rfl

theorem takes_accept (k : Kind) (glued : Bool) :
    TakesWith good tokens n (accept k) [⟨glued, k⟩] next (· = true) := by
  intro previous ts u us i m _ hm _ hg _
  obtain ⟨t, rfl⟩ := List.length_eq_one_iff.1 hm.length_eq
  refine ⟨true, m, ?_, hg, rfl⟩
  have hk : (Cursor.mk previous ([t] ++ u :: us) i).kind = k := hm.1.kind
  rw [accept, hk, if_pos (beq_self_eq_true k)]
  rfl

theorem takes_accept_none (k : Kind) :
    TakesWith good tokens n (accept k) [] (· ≠ k) (· = false) := by
  intro previous ts u us i m _ hm hu hg _
  obtain rfl := List.eq_nil_of_length_eq_zero hm.length_eq
  refine ⟨false, m, ?_, hg, rfl⟩
  have hk : (Cursor.mk previous ([] ++ u :: us) i).kind = u.kind := rfl
  rw [accept, hk, if_neg (by simpa using hu)]
  rfl

theorem takes_ident (name : String) (glued : Bool) :
    TakesWith good tokens n ident [⟨glued, .ident name⟩] next (· = name) := by
  intro previous ts u us i m _ hm _ hg _
  obtain ⟨t, rfl⟩ := List.length_eq_one_iff.1 hm.length_eq
  refine ⟨name, m, ?_, hg, rfl⟩
  have hk : (Cursor.mk previous ([t] ++ u :: us) i).kind = .ident name := hm.1.kind
  rw [ident, hk]
  rfl

/-- What is read for certain is read by an attempt as well. -/
theorem takes_attempt {p : TokenReader (Option α)}
    (hp : TakesWith good tokens n p ms next (fun r => ∃ a, r = some a ∧ P a)) :
    TakesWith good tokens n (attempt p) ms next (fun r => ∃ a, r = some a ∧ P a) := by
  intro previous ts u us i m hd hm hu hg hlt
  obtain ⟨r, m', hrun, hg', a, rfl, ha⟩ := hp previous ts u us i m hd hm hu hg hlt
  refine ⟨some a, m', ?_, hg', a, rfl, ha⟩
  rw [attempt, hrun]

/-! ## Lists -/

/-- The kinds that divide or close a list. -/
def Delimits (k : Kind) : Prop := k = .symbol .comma ∨ k = .symbol .rparen

/-- The marks of a list whose items have the given marks, behind the opening parenthesis. -/
def itemMarks (glued : Bool) : List (List Mark) → List Mark
  | [] => [⟨glued, .symbol .rparen⟩]
  | [ms] => ms ++ [⟨glued, .symbol .rparen⟩]
  | ms :: rest => ms ++ ⟨glued, .symbol .comma⟩ :: itemMarks glued rest

section

variable {γ : Type} {item : TokenReader α} {marks : γ → List Mark} {R : γ → α → Prop} {xs : List γ}
  {fuel : Nat} {tight : Bool}

theorem takes_items (hne : xs ≠ [])
    (hx : ∀ x ∈ xs, TakesWith good tokens n item (marks x) Delimits (R x))
    (hn : n ≤ fuel) (done : List α) :
    TakesWith good tokens n (items item fuel done) (itemMarks tight (xs.map marks)) next
      (fun as => ∃ bs, as = done.reverse ++ bs ∧ List.Forall₂ R xs bs) := by
  induction xs generalizing n fuel done with
  | nil => exact absurd rfl hne
  | cons x xs ih =>
    refine takes_of_pos fun hpos => ?_
    obtain ⟨fuel, rfl⟩ := Nat.exists_eq_succ_of_ne_zero (Nat.ne_of_gt (Nat.lt_of_lt_of_le hpos hn))
    have hitem := hx x List.mem_cons_self
    cases xs with
    | nil =>
      refine hitem.bind (Or.inr rfl) fun a ha => ?_
      refine (takes_accept_none (.symbol .comma)).bind_nil (by simp [Follows]) fun b hb => ?_
      subst hb
      refine (takes_expect (.symbol .rparen) tight).bind_pure fun _ _ => takes_pure ?_
      exact ⟨[a], by simp, .cons ha .nil⟩
    | cons y ys =>
      refine hitem.bind (Or.inl rfl) fun a ha => ?_
      refine (takes_accept (.symbol .comma) tight).bind_cons fun b hb => ?_
      subst hb
      -- The comma has been passed, so there is one token less and one unrolling less.
      refine (ih (by simp) (fun z hz => ?_) (by omega) (a :: done)).imp (fun _ hk => hk) ?_
      · exact (hx z (List.mem_cons_of_mem _ hz)).mono (by omega)
      · rintro as ⟨bs, rfl, hbs⟩
        exact ⟨a :: bs, by simp, .cons ha hbs⟩

/-- A parenthesized list that is not empty, whether or not it might be. -/
theorem takes_list (hne : xs ≠ [])
    (hx : ∀ x ∈ xs, TakesWith good tokens n item (marks x) Delimits (R x))
    (hfirst : ∀ x ∈ xs, ∃ k ks, marks x = k :: ks ∧ k.kind ≠ .symbol .rparen) (hn : n ≤ fuel)
    (glued allowEmpty : Bool) :
    TakesWith good tokens n (list fuel allowEmpty item)
      (⟨glued, .symbol .lparen⟩ :: itemMarks tight (xs.map marks)) next (List.Forall₂ R xs) := by
  refine (takes_expect (.symbol .lparen) glued).bind_cons fun _ _ => ?_
  have hitems : TakesWith good tokens (n - 1) (items item fuel []) (itemMarks tight (xs.map marks))
      next (List.Forall₂ R xs) := by
    refine (takes_items hne (fun x hmem => (hx x hmem).mono (Nat.sub_le _ _)) (by omega) []).imp
      (fun _ hk => hk) ?_
    rintro as ⟨bs, rfl, hbs⟩
    exact hbs
  cases allowEmpty with
  | false => exact hitems
  | true =>
    refine (takes_accept_none (.symbol .rparen)).bind_nil ?_ fun b hb => ?_
    · obtain ⟨x, xs, rfl⟩ := List.exists_cons_of_ne_nil hne
      obtain ⟨k, ks, hk, hkind⟩ := hfirst x List.mem_cons_self
      cases xs with
      | nil => simpa [itemMarks, hk, Follows] using hkind
      | cons y ys => simpa [itemMarks, hk, Follows] using hkind
    · subst hb
      exact hitems

/-- A parenthesized list that may be empty. -/
theorem takes_listOrNone
    (hx : ∀ x ∈ xs, TakesWith good tokens n item (marks x) Delimits (R x))
    (hfirst : ∀ x ∈ xs, ∃ k ks, marks x = k :: ks ∧ k.kind ≠ .symbol .rparen) (hn : n ≤ fuel)
    (glued : Bool) :
    TakesWith good tokens n (list fuel true item)
      (⟨glued, .symbol .lparen⟩ :: itemMarks tight (xs.map marks)) next (List.Forall₂ R xs) := by
  cases xs with
  | nil =>
    refine (takes_expect (.symbol .lparen) glued).bind_cons fun _ _ => ?_
    refine (takes_accept (.symbol .rparen) tight).bind_pure ?_
    rintro b rfl
    exact takes_pure .nil
  | cons x xs => exact takes_list (List.cons_ne_nil x xs) hx hfirst hn glued true

end

end TokenReader

end GeoScript
