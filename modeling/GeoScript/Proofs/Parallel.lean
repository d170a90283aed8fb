import GeoScript.Expr.Parser
import GeoScript.Proofs.Places

/-!
# Two readings side by side

**Abreast.** Two readings are compared step by step: of two token lists, with two memories, or with
two numbers of unrollings. A `Parallel` says which cursors are abreast, which memories belong
together, and how much of the places is compared. Readers *agree* at two cursors if they both give
results that look alike, and cursors abreast again, or both fail with errors that belong together
(`Agree`). Neither of them may be left unfinished.

**Brackets.** How many brackets are open is part of what it means to be abreast, since a token list
may be compared with a longer one: where the first has its end mark, the second has a semicolon and
goes on. Nothing but a sequence takes notice of that, and a sequence in brackets is closed before.

**Progress.** Agreement includes a bound on the number of tokens that are left. Every nonterminal
consumes a token before it refers back to another, so the bound decreases from one unrolling to the
next, and as many unrollings as there are tokens suffice.

**Theorem (`Parallel.agree_program`).** If attempts at pairs agree wherever the parsers behind them
do, then the whole grammar agrees with itself, whatever the two numbers of unrollings are, as long
as there are no fewer of them than tokens.
-/

namespace GeoScript

open Token (Kind)
open TokenReader Grammar

/-! ## Brackets -/

/-- What passing a token does to the brackets that are open. The end mark is never passed. -/
inductive Token.Turn where
  | opens | closes | stays | ends
  deriving DecidableEq

@[simp] def Token.Kind.turn : Kind → Turn
  | .symbol .lparen | .symbol .lbrace => .opens
  | .symbol .rparen | .symbol .rbrace => .closes
  | .eof => .ends
  | _ => .stays

theorem Token.Kind.ne_eof_of_turn {k : Kind} {turn : Turn} (h : k.turn = turn)
    (hturn : turn ≠ .ends) : k ≠ .eof := by
  rintro rfl
  exact hturn h.symm

/-- Neither the end mark nor a semicolon, so no token that a shorter list may end at. -/
@[simp] def Token.Kind.isInner : Kind → Bool
  | .eof | .symbol .semicolon => false
  | _ => true

/-- A way to compare two readings. -/
structure Parallel where
  /-- The cursors of the two readings that belong together when so many brackets are open. -/
  Abreast : Nat → Cursor → Cursor → Prop
  /-- The memories of the two readings that belong together. -/
  Recalls : Memory → Memory → Prop
  /-- What is compared of a place in a tree of the first reading. -/
  place : Position → Position
  /-- What is compared of a place in a tree of the second reading. -/
  place' : Position → Position
  /-- The errors that belong together. -/
  Blames : SyntaxError → SyntaxError → Prop
  /-- When so many brackets are open, the second list does not go on behind the end of the first. -/
  Whole : Nat → Prop
  whole_succ (j : Nat) : Whole (j + 1)
  nonempty {j : Nat} {c d : Cursor} : Abreast j c d → c.rest ≠ []
  kind {j : Nat} {c d : Cursor} : Abreast j c d → d.kind = c.kind ∨
    ¬ Whole j ∧ c.kind = .eof ∧ d.kind = .symbol .semicolon
  assigns {j : Nat} {c d : Cursor} : Abreast j c d → c.kind ≠ .eof →
    (d.secondKind? = some (.symbol .equal) ↔ c.secondKind? = some (.symbol .equal))
  sign {j : Nat} {c d : Cursor} : Abreast j c d →
    c.kind = .symbol .plus ∨ c.kind = .symbol .minus → d.atCoordinateSign = c.atCoordinateSign
  placed {j : Nat} {c d : Cursor} : Abreast j c d → d.kind = c.kind →
    place' d.token.position = place c.token.position
  unwanted {j : Nat} {c d : Cursor} (wanted : Expectation) : Abreast j c d →
    Blames ⟨.unexpected wanted c.kind, c.token.position⟩
      ⟨.unexpected wanted d.kind, d.token.position⟩
  lacking {j : Nat} {c d : Cursor} (wanted : Kind) : Abreast j c d →
    Blames ⟨.missing wanted c.kind, c.token.position⟩ ⟨.missing wanted d.kind, d.token.position⟩
  opens {j : Nat} {c d : Cursor} : Abreast j c d → c.kind.turn = .opens →
    Abreast (j + 1) c.advance d.advance
  closes {j : Nat} {c d : Cursor} : Abreast (j + 1) c d → c.kind.turn = .closes →
    Abreast j c.advance d.advance
  stays {j : Nat} {c d : Cursor} : Abreast j c d → c.kind.turn = .stays →
    Abreast j c.advance d.advance
  shorter {j : Nat} {c d : Cursor} : Abreast j c d → c.kind ≠ .eof →
    c.advance.rest.length < c.rest.length

/-- The token after the next one is next when a token has been passed. -/
theorem Cursor.kind_advance {c : Cursor} {k : Kind} (h : c.secondKind? = some k) :
    c.advance.kind = k := by
  obtain ⟨previous, rest, index⟩ := c
  match rest, h with
  | _ :: u :: _, h => exact Option.some.inj h

/-- A sign of a coordinate is followed by a number. -/
theorem Cursor.number_of_atCoordinateSign {c : Cursor} (h : c.atCoordinateSign = true) :
    ∃ x, c.secondKind? = some (.number x) := by
  unfold Cursor.atCoordinateSign at h
  unfold Cursor.secondKind?
  split at h
  · next t ht =>
    rw [ht]
    cases hk : t.kind with
    | number x => exact ⟨x, by rw [Option.map_some, hk]⟩
    | _ => simp [hk] at h
  · cases h

/-- No operator is the end mark, a semicolon or a bracket. -/
theorem Level.turn_of_operator? {l : Level} {k : Kind} {op : BinaryOp}
    (h : l.operator? k = some op) : k.turn = .stays := by
  unfold Level.operator? at h
  split at h <;> first | rfl | cases h

/-- What is compared of a result, depending on what is compared of places. -/
abbrev View (α γ : Type) := (Position → Position) → α → γ

namespace View

variable {α β γ δ : Type}

/-- Results without places. -/
abbrev exact : View α α := fun _ => id

abbrev list (view : View α γ) : View (List α) (List γ) := fun f => List.map (view f)

theorem list_exact : list (exact (α := α)) = exact := by
  funext f
  exact List.map_id_fun

abbrev option (view : View α γ) : View (Option α) (Option γ) := fun f => Option.map (view f)

/-- Two coordinates. -/
abbrev pair : View (Expr × Expr) (Expr × Expr) := fun f => Prod.map (Expr.placed f) (Expr.placed f)

end View

namespace Parallel

variable (K : Parallel) {α β γ δ : Type}

/-- The outcomes belong together, with at most `left` tokens to go. -/
inductive Matches (j left : Nat) (view : View α γ) :
    Outcome α × Memory → Outcome α × Memory → Prop
  | ok {a b : α} {c d : Cursor} {m m' : Memory} : view K.place' b = view K.place a →
    K.Abreast j c d → c.rest.length ≤ left → K.Recalls m m' →
    Matches j left view (.ok a c, m) (.ok b d, m')
  | error {e e' : SyntaxError} {m m' : Memory} : K.Blames e e' → K.Recalls m m' →
    Matches j left view (.error e, m) (.error e', m')

/-- From these cursors the readers end alike, whatever memories that belong together they start
with, and leave `j` brackets open. Results are compared through `view`. -/
def Agree (j : Nat) (c d : Cursor) (left : Nat) (view : View α γ) (p q : TokenReader α) : Prop :=
  ∀ m m', K.Recalls m m' → K.Matches j left view (p c m) (q d m')

/-- From these cursors both attempts succeed alike, or both give nothing and stay where they are. -/
def Tries (j : Nat) (c d : Cursor) (left : Nat) (view : View α γ) (p q : TokenReader (Option α)) :
    Prop :=
  ∀ m m', K.Recalls m m' →
    (∃ a b c' d' m₁ m₁', p c m = (.ok (some a) c', m₁) ∧ q d m' = (.ok (some b) d', m₁') ∧
      view K.place' b = view K.place a ∧ K.Abreast j c' d' ∧ c'.rest.length ≤ left ∧
      K.Recalls m₁ m₁') ∨
    ∃ m₁ m₁', p c m = (.ok none c, m₁) ∧ q d m' = (.ok none d, m₁') ∧ K.Recalls m₁ m₁'

/-- From these cursors both readers give something alike, or both give nothing or fail. Where they
give nothing does not matter. -/
def Offers (j : Nat) (c d : Cursor) (left : Nat) (view : View α γ)
    (p q : TokenReader (Option α)) : Prop :=
  ∀ m m', K.Recalls m m' → K.Matches j left view.option (p c m) (q d m') ∨
    ∃ c' d' m₁ m₁', p c m = (.ok none c', m₁) ∧ q d m' = (.ok none d', m₁') ∧ K.Recalls m₁ m₁'

/-- The trees are the same for all that is compared of places. -/
abbrev Same (e e' : Expr) : Prop := e'.placed K.place' = e.placed K.place

variable {K} {c d : Cursor} {j left : Nat} {view : View α γ} {view' : View β δ}

/-! ## Kinds of tokens that are abreast -/

theorem kind_eq (hcd : K.Abreast j c d) (hk : c.kind ≠ .eof) : d.kind = c.kind := by
  rcases K.kind hcd with heq | ⟨-, heof, -⟩
  · exact heq
  · exact absurd heof hk

theorem kind_eq_of_whole (hcd : K.Abreast j c d) (hw : K.Whole j) : d.kind = c.kind := by
  rcases K.kind hcd with heq | ⟨hnot, -⟩
  · exact heq
  · exact absurd hw hnot

theorem place_eq (hcd : K.Abreast j c d) (hk : c.kind ≠ .eof) :
    K.place' d.token.position = K.place c.token.position :=
  K.placed hcd (kind_eq hcd hk)

theorem kind_iff (hcd : K.Abreast j c d) {k : Kind} (hk : k.isInner = true) :
    d.kind = k ↔ c.kind = k := by
  rcases K.kind hcd with heq | ⟨-, heof, hsemi⟩
  · rw [heq]
  · rw [heof, hsemi]
    constructor <;> rintro rfl <;> cases hk

theorem Matches.mono {r s : Outcome α × Memory} {left' : Nat} (h : K.Matches j left view r s)
    (hle : left ≤ left') : K.Matches j left' view r s := by
  cases h with
  | ok hab hcd hleft hm => exact .ok hab hcd (Nat.le_trans hleft hle) hm
  | error hblames hm => exact .error hblames hm

theorem Agree.mono {p q : TokenReader α} {left' : Nat} (h : K.Agree j c d left view p q)
    (hle : left ≤ left') : K.Agree j c d left' view p q :=
  fun m m' hm => (h m m' hm).mono hle

/-! ## Sequencing -/

theorem agree_pure {a b : α} (hab : view K.place' b = view K.place a) (hcd : K.Abreast j c d)
    (hleft : c.rest.length ≤ left) : K.Agree j c d left view (pure a) (pure b) :=
  fun _ _ hm => .ok hab hcd hleft hm

theorem agree_unexpected {i : Nat} (hcd : K.Abreast i c d) (wanted : Expectation) :
    K.Agree j c d left view (unexpected wanted) (unexpected wanted) :=
  fun _ _ hm => .error (K.unwanted wanted hcd) hm

theorem agree_bind {i : Nat} {p q : TokenReader α} {f g : α → TokenReader β} {left' : Nat}
    (hp : K.Agree i c d left' view p q)
    (hf : ∀ a b c' d', view K.place' b = view K.place a → K.Abreast i c' d' →
      c'.rest.length ≤ left' → K.Agree j c' d' left view' (f a) (g b)) :
    K.Agree j c d left view' (p >>= f) (q >>= g) := by
  intro m m' hm
  have hpq := hp m m' hm
  show K.Matches j left view' (TokenReader.bind p f c m) (TokenReader.bind q g d m')
  unfold TokenReader.bind
  generalize p c m = r at hpq ⊢
  generalize q d m' = s at hpq ⊢
  cases hpq with
  | ok hab hcd hleft hm₁ => exact hf _ _ _ _ hab hcd hleft _ _ hm₁
  | error hblames hm₁ => exact .error hblames hm₁

theorem Tries.bind {i : Nat} {p q : TokenReader (Option α)} {f g : Option α → TokenReader β}
    {left' : Nat} (hp : K.Tries i c d left' view p q)
    (hsome : ∀ a b c' d', view K.place' b = view K.place a → K.Abreast i c' d' →
      c'.rest.length ≤ left' → K.Agree j c' d' left view' (f (some a)) (g (some b)))
    (hnone : K.Agree j c d left view' (f none) (g none)) :
    K.Agree j c d left view' (p >>= f) (q >>= g) := by
  intro m m' hm
  show K.Matches j left view' (TokenReader.bind p f c m) (TokenReader.bind q g d m')
  unfold TokenReader.bind
  rcases hp m m' hm with
    ⟨a, b, c', d', m₁, m₁', hpa, hqb, hab, hcd, hleft, hm₁⟩ | ⟨m₁, m₁', hpn, hqn, hm₁⟩
  · rw [hpa, hqb]
    exact hsome a b c' d' hab hcd hleft m₁ m₁' hm₁
  · rw [hpn, hqn]
    exact hnone m₁ m₁' hm₁

/-- An attempt gives nothing where its reader fails. -/
theorem tries_attempt {p q : TokenReader (Option α)} (h : K.Offers j c d left view p q) :
    K.Tries j c d left view (attempt p) (attempt q) := by
  intro m m' hm
  unfold attempt
  rcases h m m' hm with hpq | ⟨c', d', m₁, m₁', hp, hq, hm₁⟩
  · generalize p c m = r at hpq ⊢
    generalize q d m' = s at hpq ⊢
    cases hpq with
    | error _ hm₁ => exact .inr ⟨_, _, rfl, rfl, hm₁⟩
    | @ok a b c' d' _ _ hab hcd hleft hm₁ =>
      cases a with
      | none =>
        cases b with
        | none => exact .inr ⟨_, _, rfl, rfl, hm₁⟩
        | some b => cases hab
      | some a =>
        cases b with
        | none => cases hab
        | some b => exact .inl ⟨a, b, c', d', _, _, rfl, rfl, Option.some.inj hab, hcd, hleft, hm₁⟩
  · rw [hp, hq]
    exact .inr ⟨m₁, m₁', rfl, rfl, hm₁⟩

theorem Agree.offers {p q : TokenReader (Option α)} (h : K.Agree j c d left view.option p q) :
    K.Offers j c d left view p q :=
  fun m m' hm => .inl (h m m' hm)

theorem offers_none {p q : TokenReader (Option α)} (hp : p = pure none) (hq : q = pure none) :
    K.Offers j c d left view p q := by
  subst hp hq
  exact fun m m' hm => .inr ⟨c, d, m, m', rfl, rfl, hm⟩

theorem Tries.bind_offers {i : Nat} {p q : TokenReader (Option α)}
    {f g : Option α → TokenReader (Option β)} {left' : Nat} (hp : K.Tries i c d left' view p q)
    (hsome : ∀ a b c' d', view K.place' b = view K.place a → K.Abreast i c' d' →
      c'.rest.length ≤ left' → K.Offers j c' d' left view' (f (some a)) (g (some b)))
    (hf : f none = pure none) (hg : g none = pure none) :
    K.Offers j c d left view' (p >>= f) (q >>= g) := by
  intro m m' hm
  show K.Matches j left view'.option (TokenReader.bind p f c m) (TokenReader.bind q g d m') ∨
    ∃ c' d' m₁ m₁', TokenReader.bind p f c m = (.ok none c', m₁) ∧
      TokenReader.bind q g d m' = (.ok none d', m₁') ∧ K.Recalls m₁ m₁'
  unfold TokenReader.bind
  rcases hp m m' hm with
    ⟨a, b, c', d', m₁, m₁', hpa, hqb, hab, hcd, hleft, hm₁⟩ | ⟨m₁, m₁', hpn, hqn, hm₁⟩
  · rw [hpa, hqb]
    exact hsome a b c' d' hab hcd hleft m₁ m₁' hm₁
  · rw [hpn, hqn]
    exact offers_none hf hg m₁ m₁' hm₁

/-! ## Single tokens -/

theorem agree_here_bind {f g : Cursor → TokenReader β}
    (h : K.Agree j c d left view' (f c) (g d)) :
    K.Agree j c d left view' (here >>= f) (here >>= g) := h

theorem agree_position_bind {f g : Position → TokenReader β}
    (h : K.Agree j c d left view' (f c.token.position) (g d.token.position)) :
    K.Agree j c d left view' (position >>= f) (position >>= g) := h

theorem agree_next_bind {f g : Token → TokenReader β}
    (h : K.Agree j c.advance d.advance left view' (f c.token) (g d.token)) :
    K.Agree j c d left view' (next >>= f) (next >>= g) := h

theorem agree_peekKind_bind_of_eq {f g : Kind → TokenReader β} (hkind : d.kind = c.kind)
    (h : K.Agree j c d left view' (f c.kind) (g c.kind)) :
    K.Agree j c d left view' (peekKind >>= f) (peekKind >>= g) := by
  intro m m' hm
  show K.Matches j left view' (f c.kind c m) (g d.kind d m')
  rw [hkind]
  exact h m m' hm

/-- Whoever does not tell a semicolon from the end mark reads on alike. -/
theorem agree_peekKind_bind {f g : Kind → TokenReader β} (hcd : K.Abreast j c d)
    (hg : g (.symbol .semicolon) = g .eof) (h : K.Agree j c d left view' (f c.kind) (g c.kind)) :
    K.Agree j c d left view' (peekKind >>= f) (peekKind >>= g) := by
  rcases K.kind hcd with heq | ⟨-, heof, hsemi⟩
  · exact agree_peekKind_bind_of_eq heq h
  · intro m m' hm
    show K.Matches j left view' (f c.kind c m) (g d.kind d m')
    rw [hsemi, hg, ← heof]
    exact h m m' hm

theorem agree_expect_bind {i : Nat} {k : Kind} {f g : Unit → TokenReader β}
    (hk : k.isInner = true) (hcd : K.Abreast i c d)
    (h : c.kind = k → K.Agree j c.advance d.advance left view' (f ()) (g ())) :
    K.Agree j c d left view' (expect k >>= f) (expect k >>= g) := by
  intro m m' hm
  show K.Matches j left view' (TokenReader.bind (expect k) f c m)
    (TokenReader.bind (expect k) g d m')
  unfold TokenReader.bind expect
  have hiff := kind_iff hcd hk
  by_cases hck : c.kind = k
  · simp only [hck, hiff.2 hck, beq_self_eq_true, if_true]
    exact h hck m m' hm
  · simp only [beq_iff_eq, hck, hiff, if_false]
    exact .error (K.lacking k hcd) hm

theorem agree_accept_bind {k : Kind} {f g : Bool → TokenReader β} (hiff : d.kind = k ↔ c.kind = k)
    (htrue : c.kind = k → K.Agree j c.advance d.advance left view' (f true) (g true))
    (hfalse : c.kind ≠ k → K.Agree j c d left view' (f false) (g false)) :
    K.Agree j c d left view' (accept k >>= f) (accept k >>= g) := by
  intro m m' hm
  show K.Matches j left view' (TokenReader.bind (accept k) f c m)
    (TokenReader.bind (accept k) g d m')
  unfold TokenReader.bind accept
  by_cases hk : c.kind = k
  · simp only [hk, hiff.2 hk, beq_self_eq_true, if_true]
    exact htrue hk m m' hm
  · simp only [beq_iff_eq, hk, hiff, if_false]
    exact hfalse hk m m' hm

/-- Both readers pass a token of the given kind, or both go on without. -/
theorem offers_accept_bind {k : Kind} {f g : Bool → TokenReader (Option β)}
    (hiff : d.kind = k ↔ c.kind = k)
    (htrue : c.kind = k → K.Offers j c.advance d.advance left view' (f true) (g true))
    (hfalse : c.kind ≠ k → K.Offers j c d left view' (f false) (g false)) :
    K.Offers j c d left view' (accept k >>= f) (accept k >>= g) := by
  intro m m' hm
  show K.Matches j left view'.option (TokenReader.bind (accept k) f c m)
      (TokenReader.bind (accept k) g d m') ∨
    ∃ c' d' m₁ m₁', TokenReader.bind (accept k) f c m = (.ok none c', m₁) ∧
      TokenReader.bind (accept k) g d m' = (.ok none d', m₁') ∧ K.Recalls m₁ m₁'
  unfold TokenReader.bind accept
  by_cases hk : c.kind = k
  · simp only [hk, hiff.2 hk, beq_self_eq_true, if_true]
    exact htrue hk m m' hm
  · simp only [beq_iff_eq, hk, hiff, if_false]
    exact hfalse hk m m' hm

theorem agree_ident (hcd : K.Abreast j c d) :
    K.Agree j c d (c.rest.length - 1) View.exact ident ident := by
  intro m m' hm
  unfold ident
  by_cases hk : ∃ name, c.kind = .ident name
  · obtain ⟨name, hk⟩ := hk
    have hne : c.kind ≠ .eof := by simp [hk]
    have hlt := K.shorter hcd hne
    rw [kind_eq hcd hne, hk]
    exact .ok rfl (K.stays hcd (by simp [hk])) (by omega) hm
  · have hk' : ¬ ∃ name, d.kind = .ident name := by
      rintro ⟨name, hd⟩
      exact hk ⟨name, (kind_iff hcd rfl).1 hd⟩
    split
    · next name hname => exact absurd ⟨name, hname⟩ hk
    split
    · next name hname => exact absurd ⟨name, hname⟩ hk'
    exact .error (K.unwanted .identifier hcd) hm

/-! ## Lists -/

section

variable {item item' : TokenReader α} {most n n' : Nat}

theorem agree_items (hitem : ∀ c d, K.Abreast (j + 1) c d → c.rest.length ≤ most →
      K.Agree (j + 1) c d c.rest.length view item item')
    (hcd : K.Abreast (j + 1) c d) (hmost : c.rest.length ≤ most) (hn : c.rest.length ≤ n)
    (hn' : c.rest.length ≤ n') {done done' : List α}
    (hdone : done'.map (view K.place') = done.map (view K.place)) :
    K.Agree j c d (c.rest.length - 1) (View.list view) (items item n done)
      (items item' n' done') := by
  have hpos := List.length_pos_iff.2 (K.nonempty hcd)
  induction n generalizing c d n' done done' with
  | zero => omega
  | succ n ih =>
    obtain ⟨n', rfl⟩ := Nat.exists_eq_succ_of_ne_zero (show n' ≠ 0 by omega)
    refine agree_bind (hitem c d hcd hmost) fun a b c₁ d₁ hab hcd₁ hle₁ => ?_
    refine agree_accept_bind (kind_iff hcd₁ rfl) (fun hk => ?_) fun _ => ?_
    · -- The comma has been passed, so there is one token less and one unrolling less.
      have hne : c₁.kind ≠ .eof := by simp [hk]
      have hcd₂ := K.stays hcd₁ (by simp [hk])
      have hlt := K.shorter hcd₁ hne
      refine (ih hcd₂ (by omega) (by omega) (by omega) ?_
        (List.length_pos_iff.2 (K.nonempty hcd₂))).mono (by omega)
      rw [List.map_cons, List.map_cons, hab, hdone]
    · refine agree_expect_bind rfl hcd₁ fun hk => ?_
      have hne : c₁.kind ≠ .eof := by simp [hk]
      have hlt := K.shorter hcd₁ hne
      refine agree_pure ?_ (K.closes hcd₁ (by simp [hk])) (by omega)
      simp only [View.list, List.map_reverse, List.map_cons, hab, hdone]

theorem agree_list (hitem : ∀ c d, K.Abreast (j + 1) c d → c.rest.length ≤ most →
      K.Agree (j + 1) c d c.rest.length view item item')
    (hcd : K.Abreast j c d) (hmost : c.rest.length ≤ most + 1) (hn : most < n) (hn' : most < n')
    (allowEmpty : Bool) :
    K.Agree j c d (c.rest.length - 1) (View.list view) (list n allowEmpty item)
      (list n' allowEmpty item') := by
  refine agree_expect_bind rfl hcd fun hk => ?_
  have hne : c.kind ≠ .eof := by simp [hk]
  have hcd₁ := K.opens hcd (by simp [hk])
  have hlt := K.shorter hcd hne
  have hitems : K.Agree j c.advance d.advance (c.rest.length - 1) (View.list view)
      (items item n []) (items item' n' []) :=
    (agree_items hitem hcd₁ (by omega) (by omega) (by omega) rfl).mono (by omega)
  cases allowEmpty with
  | false => exact hitems
  | true =>
    refine agree_accept_bind (kind_iff hcd₁ rfl) (fun hk₁ => ?_) fun _ => hitems
    have hne₁ : c.advance.kind ≠ .eof := by simp [hk₁]
    have hlt₁ := K.shorter hcd₁ hne₁
    exact agree_pure rfl (K.closes hcd₁ (by simp [hk₁])) (by omega)

end

/-! ## Coordinates -/

theorem startsCoord_eq (hcd : K.Abreast j c d) : d.startsCoord = c.startsCoord := by
  unfold Cursor.startsCoord
  rcases K.kind hcd with heq | ⟨-, heof, hsemi⟩
  · rw [heq]
    split
    · rfl
    · rfl
    · rfl
    · next hk => exact K.sign hcd (.inl hk)
    · next hk => exact K.sign hcd (.inr hk)
    · rfl
  · rw [heof, hsemi]

/-- How many tokens a goal takes at least. -/
def least : Goal → Nat
  | .sequence => 0
  | _ => 1

/-- The parsers that nonterminals refer back to agree as long as there are at most `most` tokens to
go, and there are more unrollings than that. -/
structure Nested (K : Parallel) (most n n' : Nat) (sub sub' : Goal → TokenReader Expr) : Prop where
  fuel : most < n
  fuel' : most < n'
  goal {j : Nat} {c d : Cursor} (g : Goal) : (g = .sequence → K.Whole j) → K.Abreast j c d →
    c.rest.length ≤ most →
    K.Agree j c d (c.rest.length - least g) Expr.placed (sub g) (sub' g)

section Grammar

variable {most n n' : Nat} {sub sub' : Goal → TokenReader Expr} (hsub : K.Nested most n n' sub sub')
include hsub

theorem Nested.agree_arguments (hcd : K.Abreast j c d) (hmost : c.rest.length ≤ most + 1) :
    K.Agree j c d (c.rest.length - 1) (View.list Expr.placed) (arguments n sub)
      (arguments n' sub') :=
  agree_list (fun _ _ h hle => (hsub.goal .expression nofun h hle).mono (Nat.sub_le _ _)) hcd hmost
    hsub.fuel hsub.fuel' true

theorem Nested.agree_callTail (hcd : K.Abreast j c d) (hmost : c.rest.length ≤ most + 1)
    {e e' : Expr} (he : K.Same e e') :
    K.Agree j c d c.rest.length Expr.placed (callTail n sub e) (callTail n' sub' e') := by
  refine agree_peekKind_bind hcd rfl ?_
  split
  · refine agree_bind (hsub.agree_arguments hcd hmost) fun as bs c₁ d₁ hab hcd₁ hle => ?_
    refine agree_pure ?_ hcd₁ (by omega)
    simp only [Expr.placed, Expr.placedAll_eq, he, hab]
  · exact agree_pure he hcd (Nat.le_refl _)

/-- What stands in parentheses, behind the opening one. -/
theorem Nested.agree_group (hcd : K.Abreast (j + 1) c d) (hmost : c.rest.length ≤ most) :
    K.Agree j c d c.rest.length Expr.placed
      (do let e ← sub .expression; expect (.symbol .rparen); return e)
      (do let e ← sub' .expression; expect (.symbol .rparen); return e) := by
  refine agree_bind (hsub.goal .expression nofun hcd hmost) fun e e' c₁ d₁ he hcd₁ hle => ?_
  refine agree_expect_bind rfl hcd₁ fun hk => ?_
  have hne : c₁.kind ≠ .eof := by simp [hk]
  have hlt := K.shorter hcd₁ hne
  exact agree_pure he (K.closes hcd₁ (by simp [hk])) (by omega)

theorem Nested.agree_coord (hcd : K.Abreast j c d) (hmost : c.rest.length ≤ most + 1) :
    K.Agree j c d (c.rest.length - 1) Expr.placed (coord n sub) (coord n' sub') := by
  refine agree_here_bind ?_
  rcases K.kind hcd with heq | ⟨-, heof, hsemi⟩
  case inr =>
    simp only [heof, hsemi, reduceCtorEq, false_or, false_and, if_false]
    exact agree_unexpected hcd _
  have hplace := K.placed hcd heq
  simp only [heq]
  split
  · next x hk =>
    have hne : c.kind ≠ .eof := by simp [hk]
    have hlt := K.shorter hcd hne
    refine agree_next_bind (agree_pure ?_ (K.stays hcd (by simp [hk])) (by omega))
    simp only [Expr.placed, hplace]
  · next name hk =>
    have hne : c.kind ≠ .eof := by simp [hk]
    have hcd₁ := K.stays hcd (by simp [hk])
    have hlt := K.shorter hcd hne
    refine agree_next_bind ((hsub.agree_callTail hcd₁ (by omega) ?_).mono (by omega))
    simp only [Same, Expr.placed, hplace]
  · next hk =>
    have hne : c.kind ≠ .eof := by simp [hk]
    have hcd₁ := K.opens hcd (by simp [hk])
    have hlt := K.shorter hcd hne
    exact agree_next_bind ((hsub.agree_group hcd₁ (by omega)).mono (by omega))
  · next s _ hk =>
    by_cases hs : s = .plus ∨ s = .minus
    · have hsign : d.atCoordinateSign = c.atCoordinateSign := by
        refine K.sign hcd ?_
        rw [hk]
        rcases hs with rfl | rfl
        · exact .inl rfl
        · exact .inr rfl
      rw [hsign]
      split
      · next hat =>
        -- The sign is followed by a number, so that both tokens are passed.
        obtain ⟨x, hx⟩ := Cursor.number_of_atCoordinateSign hat.2
        have hne : c.kind ≠ .eof := by simp [hk]
        have hcd₁ := K.stays hcd (by rcases hs with rfl | rfl <;> simp [hk])
        have hkind₁ : c.advance.kind = .number x := Cursor.kind_advance hx
        have hne₁ : c.advance.kind ≠ .eof := by simp [hkind₁]
        have hkind₁' : d.advance.kind = .number x := (kind_eq hcd₁ hne₁).trans hkind₁
        have hlt := K.shorter hcd hne
        have hlt₁ := K.shorter hcd₁ hne₁
        refine agree_next_bind (agree_next_bind ?_)
        have htoken : c.advance.token.kind = .number x := hkind₁
        have htoken' : d.advance.token.kind = .number x := hkind₁'
        simp only [htoken, htoken']
        refine agree_pure ?_ (K.stays hcd₁ (by simp [hkind₁])) (by omega)
        simp only [Expr.placed, hplace]
      · exact agree_unexpected hcd _
    · simp only [hs, false_and, if_false]
      exact agree_unexpected hcd _
  · exact agree_unexpected hcd _

theorem Nested.agree_extraCoord (hcd : K.Abreast j c d) (hmost : c.rest.length ≤ most + 1) :
    K.Agree j c d c.rest.length View.exact (extraCoord n sub) (extraCoord n' sub') := by
  refine agree_here_bind ?_
  rw [startsCoord_eq hcd]
  split
  · refine agree_bind (hsub.agree_coord hcd hmost) fun _ _ c₁ d₁ _ hcd₁ hle => ?_
    exact agree_pure rfl hcd₁ (by omega)
  · exact agree_pure rfl hcd (Nat.le_refl _)

theorem Nested.agree_pair (hcd : K.Abreast j c d) (hmost : c.rest.length ≤ most + 1) :
    K.Agree j c d (c.rest.length - 1) View.pair (pair n sub) (pair n' sub') := by
  refine agree_bind (hsub.agree_coord hcd hmost) fun x x' c₁ d₁ hx hcd₁ hle₁ => ?_
  refine agree_bind (hsub.agree_coord hcd₁ (by omega)) fun y y' c₂ d₂ hy hcd₂ hle₂ => ?_
  have hxy : View.pair K.place' (x', y') = View.pair K.place (x, y) := by
    simp only [View.pair, Prod.map_apply, hx, hy]
  refine agree_bind (hsub.agree_extraCoord hcd₂ (by omega)) fun b b' c₃ d₃ hb hcd₃ hle₃ => ?_
  obtain rfl : b' = b := hb
  split
  · refine agree_bind (hsub.agree_extraCoord hcd₃ (by omega)) fun _ _ c₄ d₄ _ hcd₄ hle₄ => ?_
    exact agree_pure hxy hcd₄ (by omega)
  · exact agree_pure hxy hcd₃ (by omega)

theorem Nested.agree_pairBeforeDelimiter (hcd : K.Abreast j c d)
    (hmost : c.rest.length ≤ most + 1) :
    K.Agree j c d (c.rest.length - 1) View.pair.option (pairBeforeDelimiter n sub)
      (pairBeforeDelimiter n' sub') := by
  refine agree_bind (hsub.agree_pair hcd hmost) fun xy xy' c₁ d₁ hxy hcd₁ hle => ?_
  refine agree_peekKind_bind hcd₁ rfl ?_
  split
  · exact agree_pure (congrArg some hxy) hcd₁ hle
  · exact agree_pure (congrArg some hxy) hcd₁ hle
  · exact agree_pure rfl hcd₁ hle

omit hsub

/-! ## Pairs that are tried -/

/-- In addition, attempts at pairs agree. -/
structure Ready (K : Parallel) (most n n' : Nat) (sub sub' : Goal → TokenReader Expr) : Prop
    extends K.Nested most n n' sub sub' where
  pair {j : Nat} {c d : Cursor} : K.Abreast j c d → c.rest.length ≤ most + 1 →
    K.Tries j c d (c.rest.length - 1) View.pair (tryPair n sub) (tryPair n' sub')

variable (hr : K.Ready most n n' sub sub')
include hr

namespace Ready

theorem tries_parenthesizedPair (hcd : K.Abreast j c d) (hmost : c.rest.length ≤ most + 1) :
    K.Tries j c d (c.rest.length - 1) View.pair (tryParenthesizedPair n sub)
      (tryParenthesizedPair n' sub') := by
  refine tries_attempt (offers_accept_bind (kind_iff hcd rfl) (fun hk => ?_) fun _ =>
    offers_none rfl rfl)
  have hne : c.kind ≠ .eof := by simp [hk]
  have hcd₁ := K.opens hcd (by simp [hk])
  have hlt := K.shorter hcd hne
  refine (hr.pair hcd₁ (by omega)).bind_offers (fun xy xy' c₂ d₂ hxy hcd₂ hle => ?_) rfl rfl
  refine offers_accept_bind (kind_iff hcd₂ rfl) (fun hk₂ => ?_) fun _ => offers_none rfl rfl
  have hne₂ : c₂.kind ≠ .eof := by simp [hk₂]
  have hlt₂ := K.shorter hcd₂ hne₂
  exact (agree_pure (congrArg some hxy) (K.closes hcd₂ (by simp [hk₂])) (by omega)).offers

omit hr in
theorem tryParenthesizedPair_of_kind_ne (hk : c.kind ≠ .symbol .lparen) (m : Memory) :
    tryParenthesizedPair n sub c m = (.ok none c, m) := by
  show attempt (TokenReader.bind (accept (.symbol .lparen)) _) c m = _
  simp only [attempt, TokenReader.bind, accept, beq_iff_eq, hk, if_false]
  rfl

/-- A pair in parentheses, and what else may stand there. -/
theorem agree_pointOr (hcd : K.Abreast j c d) (hmost : c.rest.length ≤ most + 1)
    {other other' : TokenReader Expr}
    (hother : K.Agree j c d (c.rest.length - 1) Expr.placed other other') :
    K.Agree j c d (c.rest.length - 1) Expr.placed
      (do
        match ← tryParenthesizedPair n sub with
        | some (x, y) => return .geometry .point (.point x y) c.token.position
        | none => other)
      (do
        match ← tryParenthesizedPair n' sub' with
        | some (x, y) => return .geometry .point (.point x y) d.token.position
        | none => other') := by
  by_cases hk : c.kind = .symbol .lparen
  · have hne : c.kind ≠ .eof := by simp [hk]
    refine (hr.tries_parenthesizedPair hcd hmost).bind (fun xy xy' c₁ d₁ hxy hcd₁ hle => ?_) hother
    obtain ⟨hx, hy⟩ := Prod.mk.inj hxy
    refine agree_pure ?_ hcd₁ hle
    simp only [Expr.placed, Body.placed, hx, hy, place_eq hcd hne]
  · -- Without a parenthesis no pair is tried.
    have hk' : d.kind ≠ .symbol .lparen := fun hd => hk ((kind_iff hcd rfl).1 hd)
    intro m m' hm
    show K.Matches _ _ _ (TokenReader.bind (tryParenthesizedPair n sub) _ c m)
      (TokenReader.bind (tryParenthesizedPair n' sub') _ d m')
    unfold TokenReader.bind
    rw [tryParenthesizedPair_of_kind_ne hk, tryParenthesizedPair_of_kind_ne hk']
    exact hother m m' hm

theorem agree_element (hcd : K.Abreast j c d) (hmost : c.rest.length ≤ most) :
    K.Agree j c d (c.rest.length - 1) Element.placed (element n sub) (element n' sub') := by
  refine (hr.pair hcd (by omega)).bind (fun xy xy' c₁ d₁ hxy hcd₁ hle => ?_) ?_
  · obtain ⟨hx, hy⟩ := Prod.mk.inj hxy
    refine agree_pure ?_ hcd₁ hle
    simp only [Element.placed, hx, hy]
  · refine agree_bind (hr.goal .expression nofun hcd hmost) fun e e' c₁ d₁ he hcd₁ hle => ?_
    refine agree_pure ?_ hcd₁ hle
    simp only [Element.placed, he]

/-! ## Shapes -/

theorem agree_elements (hcd : K.Abreast j c d) (hmost : c.rest.length ≤ most + 1)
    (allowEmpty : Bool) :
    K.Agree j c d (c.rest.length - 1) (View.list Element.placed)
      (list n allowEmpty (element n sub)) (list n' allowEmpty (element n' sub')) :=
  agree_list (fun _ _ h hle => (hr.agree_element h hle).mono (Nat.sub_le _ _)) hcd hmost hr.fuel
    hr.fuel' allowEmpty

theorem agree_rings (hcd : K.Abreast j c d) (hmost : c.rest.length ≤ most + 1) :
    K.Agree j c d (c.rest.length - 1) (View.list (View.list Element.placed))
      (list n false (ring n sub)) (list n' false (ring n' sub')) :=
  agree_list (fun _ _ h hle => (hr.agree_elements h (by omega) false).mono (Nat.sub_le _ _)) hcd
    hmost hr.fuel hr.fuel' false

theorem agree_polygons (hcd : K.Abreast j c d) (hmost : c.rest.length ≤ most + 1) :
    K.Agree j c d (c.rest.length - 1) (View.list (View.list (View.list Element.placed)))
      (list n false (list n false (ring n sub))) (list n' false (list n' false (ring n' sub'))) :=
  agree_list (fun _ _ h hle => (hr.agree_rings h (by omega)).mono (Nat.sub_le _ _)) hcd
    hmost hr.fuel hr.fuel' false

theorem agree_body (hcd : K.Abreast j c d) (hmost : c.rest.length ≤ most + 1)
    (kind : Geometry.Kind) :
    K.Agree j c d (c.rest.length - 1) Body.placed (body n sub kind)
      (body n' sub' kind) := by
  have helements : ∀ allowEmpty, K.Agree j c d (c.rest.length - 1) Body.placed
      (do return .elements (← list n allowEmpty (element n sub)))
      (do return .elements (← list n' allowEmpty (element n' sub'))) := by
    intro allowEmpty
    refine agree_bind (hr.agree_elements hcd hmost allowEmpty) fun es es' c₁ d₁ hes hcd₁ hle => ?_
    refine agree_pure ?_ hcd₁ hle
    simp only [Body.placed, Element.placedAll_eq, hes]
  have hrings : K.Agree j c d (c.rest.length - 1) Body.placed
      (do return .rings (← list n false (ring n sub)))
      (do return .rings (← list n' false (ring n' sub'))) := by
    refine agree_bind (hr.agree_rings hcd hmost) fun rs rs' c₁ d₁ hrs hcd₁ hle => ?_
    refine agree_pure ?_ hcd₁ hle
    simp only [Body.placed, Element.placedRings_eq, hrs]
  cases kind with
  | point =>
    refine agree_expect_bind rfl hcd fun hk => ?_
    have hne : c.kind ≠ .eof := by simp [hk]
    have hcd₁ := K.opens hcd (by simp [hk])
    have hlt := K.shorter hcd hne
    refine agree_bind (hr.agree_pair hcd₁ (by omega)) fun xy xy' c₂ d₂ hxy hcd₂ hle => ?_
    refine agree_expect_bind rfl hcd₂ fun hk₂ => ?_
    have hne₂ : c₂.kind ≠ .eof := by simp [hk₂]
    have hlt₂ := K.shorter hcd₂ hne₂
    obtain ⟨hx, hy⟩ := Prod.mk.inj hxy
    refine agree_pure ?_ (K.closes hcd₂ (by simp [hk₂])) (by omega)
    simp only [Body.placed, hx, hy]
  | lineString => exact helements false
  | multiPoint => exact helements false
  | collection => exact helements true
  | polygon => exact hrings
  | multiLineString => exact hrings
  | multiPolygon =>
    refine agree_bind (hr.agree_polygons hcd hmost) fun ps ps' c₁ d₁ hps hcd₁ hle => ?_
    refine agree_pure ?_ hcd₁ hle
    simp only [Body.placed, Element.placedPolygons_eq, hps]

theorem agree_geometry (hcd : K.Abreast j c d) (hmost : c.rest.length ≤ most + 1)
    {kind : Geometry.Kind} (hkind : c.kind = .geometry kind) :
    K.Agree j c d (c.rest.length - 1) Expr.placed (geometry n sub kind)
      (geometry n' sub' kind) := by
  have hne : c.kind ≠ .eof := by simp [hkind]
  have hplace := place_eq hcd hne
  have hcd₁ := K.stays hcd (by simp [hkind])
  have hlt := K.shorter hcd hne
  have htag : K.Agree j c.advance d.advance (c.rest.length - 1) Expr.placed
      (pure (.typeTag kind c.token.position)) (pure (.typeTag kind d.token.position)) :=
    agree_pure (by simp only [Expr.placed, hplace]) hcd₁ (by omega)
  refine agree_position_bind (agree_next_bind (agree_peekKind_bind hcd₁ rfl ?_))
  split
  · next name hk =>
    split
    · have hne₁ : c.advance.kind ≠ .eof := by simp [hk]
      have hlt₁ := K.shorter hcd₁ hne₁
      refine agree_next_bind (agree_pure ?_ (K.stays hcd₁ (by simp [hk])) (by omega))
      simp only [Expr.placed, Body.placed, hplace]
    · exact htag
  · refine agree_bind (hr.agree_body hcd₁ (by omega) kind) fun b b' c₂ d₂ hb hcd₂ hle => ?_
    refine agree_pure ?_ hcd₂ (by omega)
    simp only [Expr.placed, hb, hplace]
  · exact htag

/-! ## Functions, repetition and choice -/

theorem agree_params (hcd : K.Abreast j c d) (hmost : c.rest.length ≤ most + 1) :
    K.Agree j c d c.rest.length View.exact (params n) (params n') := by
  refine agree_peekKind_bind hcd rfl ?_
  split
  · have hlist := agree_list (fun c d h (_ : c.rest.length ≤ most) => (agree_ident h).mono
      (Nat.sub_le _ _)) hcd hmost hr.fuel hr.fuel' true
    rw [View.list_exact] at hlist
    exact hlist.mono (Nat.sub_le _ _)
  · refine agree_bind (agree_ident hcd) fun name name' c₁ d₁ hname hcd₁ hle => ?_
    exact agree_pure (congrArg (fun s => [s]) hname) hcd₁ (by omega)

theorem agree_function (hcd : K.Abreast j c d) (hmost : c.rest.length ≤ most + 1) :
    K.Agree j c d (c.rest.length - 1) Expr.placed (function n sub) (function n' sub') := by
  refine agree_position_bind (agree_expect_bind rfl hcd fun hk => ?_)
  have hne : c.kind ≠ .eof := by simp [hk]
  have hplace := place_eq hcd hne
  have hcd₁ := K.stays hcd (by simp [hk])
  have hlt := K.shorter hcd hne
  refine agree_expect_bind rfl hcd₁ fun hk₁ => ?_
  have hne₁ : c.advance.kind ≠ .eof := by simp [hk₁]
  have hcd₂ := K.opens hcd₁ (by simp [hk₁])
  have hlt₁ := K.shorter hcd₁ hne₁
  refine agree_bind (hr.agree_params hcd₂ (by omega)) fun names names' c₃ d₃ hnames hcd₃ hle₃ => ?_
  obtain rfl : names' = names := hnames
  refine agree_expect_bind rfl hcd₃ fun hk₃ => ?_
  have hne₃ : c₃.kind ≠ .eof := by simp [hk₃]
  have hcd₄ := K.stays hcd₃ (by simp [hk₃])
  have hlt₃ := K.shorter hcd₃ hne₃
  -- With braces or without, the body is followed by a closing parenthesis.
  have hclose : ∀ {e e' : Expr} {c₅ d₅ : Cursor}, K.Same e e' → K.Abreast (j + 1) c₅ d₅ →
      c₅.rest.length < c.rest.length → K.Agree j c₅ d₅ (c.rest.length - 1) Expr.placed
        (do expect (.symbol .rparen); return .function names' e c.token.position)
        (do expect (.symbol .rparen); return .function names' e' d.token.position) := by
    intro e e' c₅ d₅ he hcd₅ hlt₅
    refine agree_expect_bind rfl hcd₅ fun hk₅ => ?_
    have hne₅ : c₅.kind ≠ .eof := by simp [hk₅]
    have hlt₆ := K.shorter hcd₅ hne₅
    refine agree_pure ?_ (K.closes hcd₅ (by simp [hk₅])) (by omega)
    simp only [Expr.placed, he, hplace]
  refine agree_accept_bind (kind_iff hcd₄ rfl) (fun hk₄ => ?_) fun _ => ?_
  · have hne₄ : c₃.advance.kind ≠ .eof := by simp [hk₄]
    have hcd₅ := K.opens hcd₄ (by simp [hk₄])
    have hlt₄ := K.shorter hcd₄ hne₄
    refine agree_bind (hr.goal .sequence (fun _ => K.whole_succ _) hcd₅ (by omega))
      fun e e' c₆ d₆ he hcd₆ hle₆ => ?_
    refine agree_expect_bind rfl hcd₆ fun hk₆ => ?_
    have hne₆ : c₆.kind ≠ .eof := by simp [hk₆]
    have hlt₆ := K.shorter hcd₆ hne₆
    exact hclose he (K.closes hcd₆ (by simp [hk₆])) (by omega)
  · refine agree_bind (hr.goal .sequence (fun _ => K.whole_succ _) hcd₄ (by omega))
      fun e e' c₆ d₆ he hcd₆ hle₆ => ?_
    exact hclose he hcd₆ (by omega)

theorem agree_generate (hcd : K.Abreast j c d) (hmost : c.rest.length ≤ most + 1) :
    K.Agree j c d (c.rest.length - 1) Expr.placed (generate sub) (generate sub') := by
  refine agree_position_bind (agree_expect_bind rfl hcd fun hk => ?_)
  have hne : c.kind ≠ .eof := by simp [hk]
  have hplace := place_eq hcd hne
  have hcd₁ := K.stays hcd (by simp [hk])
  have hlt := K.shorter hcd hne
  refine agree_bind (hr.goal .additive nofun hcd₁ (by omega)) fun e e' c₂ d₂ he hcd₂ hle₂ => ?_
  refine agree_bind (hr.goal .additive nofun hcd₂ (by omega)) fun u u' c₃ d₃ hu hcd₃ hle₃ => ?_
  refine agree_pure ?_ hcd₃ (by omega)
  simp only [Expr.placed, he, hu, hplace]

theorem agree_branch (hcd : K.Abreast j c d) (hmost : c.rest.length ≤ most + 1) :
    K.Agree j c d (c.rest.length - 1) Expr.placed (branch n sub) (branch n' sub') := by
  refine agree_position_bind
    (hr.agree_pointOr hcd hmost (agree_expect_bind rfl hcd fun hk => ?_))
  have hne : c.kind ≠ .eof := by simp [hk]
  have hcd₁ := K.opens hcd (by simp [hk])
  have hlt := K.shorter hcd hne
  refine agree_bind (hr.goal .sequence (fun _ => K.whole_succ _) hcd₁ (by omega))
    fun e e' c₂ d₂ he hcd₂ hle₂ => ?_
  refine agree_expect_bind rfl hcd₂ fun hk₂ => ?_
  have hne₂ : c₂.kind ≠ .eof := by simp [hk₂]
  have hlt₂ := K.shorter hcd₂ hne₂
  exact agree_pure he (K.closes hcd₂ (by simp [hk₂])) (by omega)

theorem agree_condition (hcd : K.Abreast j c d) (hmost : c.rest.length ≤ most + 1) :
    K.Agree j c d (c.rest.length - 1) Expr.placed (condition n sub) (condition n' sub') := by
  refine agree_position_bind (agree_expect_bind rfl hcd fun hk => ?_)
  have hne : c.kind ≠ .eof := by simp [hk]
  have hplace := place_eq hcd hne
  have hcd₁ := K.stays hcd (by simp [hk])
  have hlt := K.shorter hcd hne
  refine agree_bind (hr.goal .expression nofun hcd₁ (by omega)) fun e e' c₂ d₂ he hcd₂ hle₂ => ?_
  refine agree_expect_bind rfl hcd₂ fun hk₂ => ?_
  have hne₂ : c₂.kind ≠ .eof := by simp [hk₂]
  have hcd₃ := K.stays hcd₂ (by simp [hk₂])
  have hlt₂ := K.shorter hcd₂ hne₂
  refine agree_bind (hr.agree_branch hcd₃ (by omega)) fun t t' c₄ d₄ ht hcd₄ hle₄ => ?_
  refine agree_expect_bind rfl hcd₄ fun hk₄ => ?_
  have hne₄ : c₄.kind ≠ .eof := by simp [hk₄]
  have hcd₅ := K.stays hcd₄ (by simp [hk₄])
  have hlt₄ := K.shorter hcd₄ hne₄
  refine agree_bind (hr.agree_branch hcd₅ (by omega)) fun u u' c₆ d₆ hu hcd₆ hle₆ => ?_
  refine agree_pure ?_ hcd₆ (by omega)
  simp only [Expr.placed, he, ht, hu, hplace]

/-! ## Expressions -/

theorem agree_parenthesized (hcd : K.Abreast j c d) (hmost : c.rest.length ≤ most + 1)
    (hk : c.kind = .symbol .lparen) :
    K.Agree j c d (c.rest.length - 1) Expr.placed (parenthesized n sub)
      (parenthesized n' sub') := by
  refine agree_position_bind (hr.agree_pointOr hcd hmost (agree_next_bind ?_))
  have hne : c.kind ≠ .eof := by simp [hk]
  have hlt := K.shorter hcd hne
  exact (hr.agree_group (K.opens hcd (by simp [hk])) (by omega)).mono (by omega)

theorem agree_primary (hcd : K.Abreast j c d) (hmost : c.rest.length ≤ most + 1) :
    K.Agree j c d (c.rest.length - 1) Expr.placed (primary n sub) (primary n' sub') := by
  refine agree_position_bind (agree_peekKind_bind hcd rfl ?_)
  split
  · next x hk =>
    have hne : c.kind ≠ .eof := by simp [hk]
    have hlt := K.shorter hcd hne
    refine agree_next_bind (agree_pure ?_ (K.stays hcd (by simp [hk])) (by omega))
    simp only [Expr.placed, place_eq hcd hne]
  · next b hk =>
    have hne : c.kind ≠ .eof := by simp [hk]
    have hlt := K.shorter hcd hne
    refine agree_next_bind (agree_pure ?_ (K.stays hcd (by simp [hk])) (by omega))
    simp only [Expr.placed, place_eq hcd hne]
  · next name hk =>
    have hne : c.kind ≠ .eof := by simp [hk]
    have hlt := K.shorter hcd hne
    refine agree_next_bind
      ((hr.agree_callTail (K.stays hcd (by simp [hk])) (by omega) ?_).mono (by omega))
    simp only [Same, Expr.placed, place_eq hcd hne]
  · next kind hk => exact hr.agree_geometry hcd hmost hk
  · refine agree_bind (hr.agree_function hcd hmost) fun e e' c₁ d₁ he hcd₁ hle => ?_
    exact (hr.agree_callTail hcd₁ (by omega) he).mono hle
  · exact hr.agree_generate hcd hmost
  · exact hr.agree_condition hcd hmost
  · next hk => exact hr.agree_parenthesized hcd hmost hk
  · exact agree_unexpected hcd _

theorem agree_accessors (hcd : K.Abreast j c d) (hmost : c.rest.length ≤ most + 1) {k k' : Nat}
    (hk : c.rest.length ≤ k) (hk' : c.rest.length ≤ k') {e e' : Expr} (he : K.Same e e') :
    K.Agree j c d c.rest.length Expr.placed (accessors n sub k e) (accessors n' sub' k' e') := by
  have hpos := List.length_pos_iff.2 (K.nonempty hcd)
  induction k generalizing c d k' e e' with
  | zero => omega
  | succ k ih =>
    obtain ⟨k', rfl⟩ := Nat.exists_eq_succ_of_ne_zero (show k' ≠ 0 by omega)
    refine agree_accept_bind (kind_iff hcd rfl) (fun hcolon => ?_) fun _ =>
      agree_pure he hcd (Nat.le_refl _)
    have hne : c.kind ≠ .eof := by simp [hcolon]
    have hcd₁ := K.stays hcd (by simp [hcolon])
    have hlt := K.shorter hcd hne
    refine agree_bind (agree_ident hcd₁) fun name name' c₂ d₂ hname hcd₂ hle₂ => ?_
    obtain rfl : name' = name := hname
    refine agree_bind (hr.agree_arguments hcd₂ (by omega)) fun as bs c₃ d₃ hab hcd₃ hle₃ => ?_
    refine (ih hcd₃ (by omega) (by omega) (by omega) ?_
      (List.length_pos_iff.2 (K.nonempty hcd₃))).mono (by omega)
    simp only [Same, Expr.placed, Expr.placedAll_eq, he, hab]

theorem agree_postfixed (hcd : K.Abreast j c d) (hmost : c.rest.length ≤ most + 1) :
    K.Agree j c d (c.rest.length - 1) Expr.placed (postfixed n sub) (postfixed n' sub') := by
  have hfuel := hr.fuel
  have hfuel' := hr.fuel'
  refine agree_bind (hr.agree_primary hcd hmost) fun e e' c₁ d₁ he hcd₁ hle => ?_
  exact (hr.agree_accessors hcd₁ (by omega) (by omega) (by omega) he).mono hle

theorem agree_unary (hcd : K.Abreast j c d) (hmost : c.rest.length ≤ most + 1) :
    K.Agree j c d (c.rest.length - 1) Expr.placed (unary n sub) (unary n' sub') := by
  refine agree_position_bind (agree_accept_bind (kind_iff hcd rfl) (fun hk => ?_) fun _ => ?_)
  · have hne : c.kind ≠ .eof := by simp [hk]
    have hlt := K.shorter hcd hne
    have hcd₀ := K.stays hcd (by simp [hk])
    refine agree_bind (hr.goal .unary nofun hcd₀ (by omega)) fun e e' c₁ d₁ he hcd₁ hle => ?_
    refine agree_pure ?_ hcd₁ (by omega)
    simp only [Expr.placed, he, place_eq hcd hne]
  refine agree_accept_bind (kind_iff hcd rfl) (fun hk => ?_) fun _ => ?_
  · have hne : c.kind ≠ .eof := by simp [hk]
    have hlt := K.shorter hcd hne
    have hcd₀ := K.stays hcd (by simp [hk])
    refine agree_bind (hr.goal .unary nofun hcd₀ (by omega)) fun e e' c₁ d₁ he hcd₁ hle => ?_
    refine agree_pure ?_ hcd₁ (by omega)
    simp only [Expr.placed, he, place_eq hcd hne]
  · exact hr.agree_postfixed hcd hmost

theorem agree_power (hcd : K.Abreast j c d) (hmost : c.rest.length ≤ most + 1) :
    K.Agree j c d (c.rest.length - 1) Expr.placed (power n sub) (power n' sub') := by
  refine agree_bind (hr.agree_unary hcd hmost) fun e e' c₁ d₁ he hcd₁ hle => ?_
  refine agree_accept_bind (kind_iff hcd₁ rfl) (fun hk => ?_) fun _ => agree_pure he hcd₁ hle
  have hne : c₁.kind ≠ .eof := by simp [hk]
  have hcd₂ := K.stays hcd₁ (by simp [hk])
  have hlt := K.shorter hcd₁ hne
  refine agree_bind (hr.goal .power nofun hcd₂ (by omega)) fun u u' c₃ d₃ hu hcd₃ hle₃ => ?_
  refine agree_pure ?_ hcd₃ (by omega)
  simp only [Expr.placed, he, hu]

omit hr in
theorem agree_operations {operand operand' : TokenReader Expr}
    (hoperand : ∀ c d, K.Abreast j c d → c.rest.length ≤ most + 1 →
      K.Agree j c d (c.rest.length - 1) Expr.placed operand operand')
    (l : Level) (hcd : K.Abreast j c d) (hmost : c.rest.length ≤ most + 1) {k k' : Nat}
    (hk : c.rest.length ≤ k) (hk' : c.rest.length ≤ k') {e e' : Expr} (he : K.Same e e') :
    K.Agree j c d c.rest.length Expr.placed (operations l operand k e)
      (operations l operand' k' e') := by
  have hpos := List.length_pos_iff.2 (K.nonempty hcd)
  induction k generalizing c d k' e e' with
  | zero => omega
  | succ k ih =>
    obtain ⟨k', rfl⟩ := Nat.exists_eq_succ_of_ne_zero (show k' ≠ 0 by omega)
    refine agree_peekKind_bind hcd (by cases l <;> rfl) ?_
    split
    · next op hop =>
      have hstays := Level.turn_of_operator? hop
      have hne : c.kind ≠ .eof := Kind.ne_eof_of_turn hstays (by simp)
      have hcd₁ := K.stays hcd hstays
      have hlt := K.shorter hcd hne
      refine agree_next_bind ?_
      refine agree_bind (hoperand _ _ hcd₁ (by omega)) fun u u' c₂ d₂ hu hcd₂ hle₂ => ?_
      refine (ih hcd₂ (by omega) (by omega) (by omega) ?_
        (List.length_pos_iff.2 (K.nonempty hcd₂))).mono (by omega)
      simp only [Same, Expr.placed, he, hu]
    · exact agree_pure he hcd (Nat.le_refl _)

theorem agree_levels (ls : List Level) (hcd : K.Abreast j c d) (hmost : c.rest.length ≤ most + 1) :
    K.Agree j c d (c.rest.length - 1) Expr.placed (levels n sub ls) (levels n' sub' ls) := by
  have hfuel := hr.fuel
  have hfuel' := hr.fuel'
  induction ls generalizing c d with
  | nil => exact hr.agree_power hcd hmost
  | cons l ls ih =>
    refine agree_bind (ih hcd hmost) fun e e' c₁ d₁ he hcd₁ hle => ?_
    exact (agree_operations (fun _ _ h hle => ih h hle) l hcd₁ (by omega) (by omega) (by omega)
      he).mono hle

/-! ## Sequences -/

theorem agree_item (hcd : K.Abreast j c d) (hmost : c.rest.length ≤ most + 1) :
    K.Agree j c d (c.rest.length - 1) Expr.placed (item n sub) (item n' sub') := by
  refine agree_here_bind ?_
  by_cases hdecl : (∃ name, c.kind = .ident name) ∧ c.secondKind? = some (.symbol .equal)
  · obtain ⟨⟨name, hk⟩, hsecond⟩ := hdecl
    have hne : c.kind ≠ .eof := by simp [hk]
    have hk' : d.kind = .ident name := (kind_eq hcd hne).trans hk
    have hcd₁ := K.stays hcd (by simp [hk])
    have hlt := K.shorter hcd hne
    have hk₁ := Cursor.kind_advance hsecond
    have hne₁ : c.advance.kind ≠ .eof := by simp [hk₁]
    have hcd₂ := K.stays hcd₁ (by simp [hk₁])
    have hlt₁ := K.shorter hcd₁ hne₁
    simp only [hk, hk', hsecond, (K.assigns hcd hne).2 hsecond]
    refine agree_next_bind (agree_next_bind ?_)
    refine agree_bind (hr.agree_levels _ hcd₂ (by omega)) fun e e' c₃ d₃ he hcd₃ hle => ?_
    refine agree_pure ?_ hcd₃ (by omega)
    simp only [Expr.placed, he, place_eq hcd hne]
  · have hdecl' : ¬ ((∃ name, d.kind = .ident name) ∧ d.secondKind? = some (.symbol .equal)) := by
      rintro ⟨⟨name, hk⟩, hsecond⟩
      have hk' := (kind_iff hcd rfl).1 hk
      exact hdecl ⟨⟨name, hk'⟩, (K.assigns hcd (by simp [hk'])).1 hsecond⟩
    split
    · next name hk hsecond => exact absurd ⟨⟨name, hk⟩, hsecond⟩ hdecl
    split
    · next name hk hsecond => exact absurd ⟨⟨name, hk⟩, hsecond⟩ hdecl'
    exact hr.agree_levels _ hcd hmost

theorem agree_sequenceItems (hwhole : K.Whole j) (hcd : K.Abreast j c d)
    (hmost : c.rest.length ≤ most + 1) {k k' : Nat} (hk : c.rest.length ≤ k)
    (hk' : c.rest.length ≤ k') {done done' : List Expr}
    (hdone : done'.map (Expr.placed K.place') = done.map (Expr.placed K.place)) :
    K.Agree j c d c.rest.length (View.list Expr.placed) (sequenceItems n sub k done)
      (sequenceItems n' sub' k' done') := by
  have hpos := List.length_pos_iff.2 (K.nonempty hcd)
  induction k generalizing c d k' done done' with
  | zero => omega
  | succ k ih =>
    obtain ⟨k', rfl⟩ := Nat.exists_eq_succ_of_ne_zero (show k' ≠ 0 by omega)
    have hend : K.Agree j c d c.rest.length (View.list Expr.placed) (pure done.reverse)
        (pure done'.reverse) :=
      agree_pure (by simp only [View.list, List.map_reverse, hdone]) hcd (Nat.le_refl _)
    have hkind := kind_eq_of_whole hcd hwhole
    refine agree_peekKind_bind_of_eq hkind ?_
    split
    · exact hend
    · exact hend
    · exact hend
    refine agree_accept_bind (by rw [hkind]) (fun hsemi => ?_) fun _ => ?_
    · have hne : c.kind ≠ .eof := by simp [hsemi]
      have hcd₁ := K.stays hcd (by simp [hsemi])
      have hlt := K.shorter hcd hne
      exact (ih hcd₁ (by omega) (by omega) (by omega) hdone
        (List.length_pos_iff.2 (K.nonempty hcd₁))).mono (by omega)
    · refine agree_bind (hr.agree_item hcd hmost) fun e e' c₁ d₁ he hcd₁ hle => ?_
      have hcons : (e' :: done').map (Expr.placed K.place') =
          (e :: done).map (Expr.placed K.place) := by
        rw [List.map_cons, List.map_cons, he, hdone]
      refine agree_accept_bind (by rw [kind_eq_of_whole hcd₁ hwhole]) (fun hsemi => ?_) fun _ => ?_
      · have hne : c₁.kind ≠ .eof := by simp [hsemi]
        have hcd₂ := K.stays hcd₁ (by simp [hsemi])
        have hlt := K.shorter hcd₁ hne
        exact (ih hcd₂ (by omega) (by omega) (by omega) hcons
          (List.length_pos_iff.2 (K.nonempty hcd₂))).mono (by omega)
      · refine agree_pure ?_ hcd₁ (by omega)
        simp only [View.list, List.map_reverse, hcons]

theorem agree_sequence (hwhole : K.Whole j) (hcd : K.Abreast j c d)
    (hmost : c.rest.length ≤ most + 1) :
    K.Agree j c d c.rest.length Expr.placed (sequence n sub) (sequence n' sub') := by
  have hfuel := hr.fuel
  have hfuel' := hr.fuel'
  refine agree_position_bind ?_
  refine agree_bind (hr.agree_sequenceItems hwhole hcd hmost (by omega) (by omega) rfl)
    fun es es' c₁ d₁ hes hcd₁ hle => ?_
  refine agree_pure ?_ hcd₁ hle
  simp only [Expr.placed, Expr.placedAll_eq, hes, K.placed hcd (kind_eq_of_whole hcd hwhole)]

theorem agree_goal (g : Goal) (hwhole : g = .sequence → K.Whole j) (hcd : K.Abreast j c d)
    (hmost : c.rest.length ≤ most + 1) :
    K.Agree j c d (c.rest.length - least g) Expr.placed (goal n sub g) (goal n' sub' g) := by
  cases g with
  | expression => exact hr.agree_levels _ hcd hmost
  | additive => exact hr.agree_levels _ hcd hmost
  | power => exact hr.agree_power hcd hmost
  | unary => exact hr.agree_unary hcd hmost
  | sequence => exact hr.agree_sequence (hwhole rfl) hcd hmost

end Ready

end Grammar

/-! ## The whole grammar -/

section Run

variable (hpair : ∀ {most n n' : Nat}, K.Nested most (n + 1) (n' + 1) (run n) (run n') →
  K.Ready most (n + 1) (n' + 1) (run n) (run n'))
include hpair

/-- If attempts at pairs agree wherever the parsers behind them do, then the grammar agrees with
itself. -/
theorem nested_run {most n n' : Nat} (hn : most ≤ n) (hn' : most ≤ n') :
    K.Nested most (n + 1) (n' + 1) (run n) (run n') := by
  induction most generalizing n n' with
  | zero =>
    refine ⟨by omega, by omega, fun g _ hcd hle => ?_⟩
    have hpos := List.length_pos_iff.2 (K.nonempty hcd)
    omega
  | succ most ih =>
    obtain ⟨n, rfl⟩ := Nat.exists_eq_succ_of_ne_zero (show n ≠ 0 by omega)
    obtain ⟨n', rfl⟩ := Nat.exists_eq_succ_of_ne_zero (show n' ≠ 0 by omega)
    have hready := hpair (ih (show most ≤ n by omega) (show most ≤ n' by omega))
    exact ⟨by omega, by omega, fun g hwhole hcd hle => hready.agree_goal g hwhole hcd hle⟩

theorem agree_program (hwhole : K.Whole j) {n n' : Nat} (hcd : K.Abreast j c d)
    (hn : c.rest.length ≤ n) (hn' : c.rest.length ≤ n') :
    K.Agree j c d c.rest.length Expr.placed (program n) (program n') := by
  have hrun := nested_run hpair hn hn'
  refine agree_bind (hrun.goal .sequence (fun _ => hwhole) hcd (Nat.le_refl _))
    fun e e' c₁ d₁ he hcd₁ hle => ?_
  refine agree_peekKind_bind_of_eq (kind_eq_of_whole hcd₁ hwhole) ?_
  split
  · exact agree_pure he hcd₁ hle
  · exact agree_unexpected hcd₁ _

end Run

end Parallel

end GeoScript
