import GeoScript.Proofs.Doubles
import GeoScript.Proofs.Operations
import GeoScript.Proofs.Reading

/-!
# Reading pairs of coordinates

**Numbers and pairs.** A number is marked by its sign, if it has one, and its size. Two of them in
front of a comma or a closing parenthesis are read as a pair wherever a pair is tried
(`takes_tryPair`).

**Pairs tried in vain.** In front of the name of a shape no pair can be read. In front of a point in
parentheses a pair is tried as well: what the parentheses hold is first read as one expression, which
either ends before the second number or takes its sign for a difference. Both ways the attempt
fails, and the point is read from its parenthesis again (`takes_element_point`).

**Values.** What is read is described by its value alone: an expression *denotes* a value if it has
it wherever it is evaluated, and evaluating it changes nothing.
-/

namespace GeoScript

open Token (Kind)
open TokenReader Grammar

/-! ## Values of what was read -/

/-- The step gives a result and changes nothing. -/
def Effect.Gives {α : Type} (m : Effect Heap α) (a : α) : Prop := ∀ h, m.runOn h = (.ok a, h)

namespace Effect.Gives

variable {α β : Type}

theorem pure (a : α) : Effect.Gives (Pure.pure a) a := fun _ => rfl

theorem bind {m : Effect Heap α} {f : α → Effect Heap β} {a : α} {b : β} (hm : Gives m a)
    (hf : Gives (f a) b) : Gives (m >>= f) b := by
  intro h
  rw [Effect.runOn_bind_ok (hm h)]
  exact hf h

/-- A step for each item of a list, with the results so far handed on, last first. -/
theorem list {run : List α → List β → Effect Heap (List β)} {step : α → Effect Heap β}
    (hnil : ∀ done, run [] done = Pure.pure done.reverse)
    (hcons : ∀ a as done, run (a :: as) done = step a >>= fun b => run as (b :: done))
    {bs : List β} {as : List α} (h : List.Forall₂ (fun b a => Gives (step a) b) bs as)
    (done : List β) : Gives (run as done) (done.reverse ++ bs) := by
  induction h generalizing done with
  | nil =>
    rw [hnil, List.append_nil]
    exact pure _
  | @cons b a bs as hb _ ih =>
    rw [hcons]
    have hrest := ih (b :: done)
    rw [List.reverse_cons, List.append_assoc] at hrest
    exact hb.bind hrest

end Effect.Gives

/-- The expression has the given value, wherever it is evaluated. -/
def Expr.Denotes (v : Value) (e : Expr) : Prop := ∀ ctx, (e.eval ctx).Gives v

/-- The entry of a coordinate list stands for the given position. -/
def Element.IsCoord (c : Coord) (e : Element) : Prop := ∀ ctx, (e.coord ctx).Gives c

/-- The entry of a collection stands for the given geometry. -/
def Element.IsMember (g : Geometry) (e : Element) : Prop := ∀ ctx, (e.member ctx).Gives g

/-- What stands behind the name of a shape makes up the given geometry. -/
def Body.Denotes (kind : Geometry.Kind) (g : Geometry) (b : Body) : Prop :=
  ∀ ctx, (b.eval ctx kind).Gives (.geometry g)

theorem Expr.denotes_number (x : Float) (p : Position) : Denotes (.number x) (.number x p) :=
  fun ctx => by
    rw [Expr.eval]
    exact .pure _

theorem Expr.denotes_geometry {kind : Geometry.Kind} {g : Geometry} {b : Body} (hb : b.Denotes kind g)
    (p : Position) : Denotes (.geometry g) (.geometry kind b p) :=
  fun ctx => by
    rw [Expr.eval]
    exact hb ctx

section

variable {x y : Expr} {c : Coord}

theorem Element.isCoord_pair (hx : x.Denotes (.number c.x)) (hy : y.Denotes (.number c.y)) :
    IsCoord c (.pair x y) := by
  intro ctx
  rw [Element.coord]
  exact (hx ctx).bind <| (Effect.Gives.pure _).bind <| (hy ctx).bind <|
    (Effect.Gives.pure _).bind <| .pure _

theorem Element.isCoord_value {e : Expr} (he : e.Denotes (.geometry (.point c))) :
    IsCoord c (.value e) := by
  intro ctx
  rw [Element.coord]
  exact (he ctx).bind (.pure _)

theorem Element.isMember_value {e : Expr} {g : Geometry} (he : e.Denotes (.geometry g)) :
    IsMember g (.value e) := by
  intro ctx
  rw [Element.member]
  exact (he ctx).bind (.pure _)

theorem Body.denotes_point (hx : x.Denotes (.number c.x)) (hy : y.Denotes (.number c.y)) :
    (Body.point x y).Denotes .point (.point c) := by
  intro ctx
  rw [Body.eval]
  exact (hx ctx).bind <| (Effect.Gives.pure _).bind <| (hy ctx).bind <|
    (Effect.Gives.pure _).bind <| .pure _

end

/-! ## Numbers and pairs -/

/-- The marks of a number: its sign, if it has one, and its size. -/
def numberMarks (x : Float) : List Mark :=
  if Decimal.isSigned x then [⟨false, .symbol .minus⟩, ⟨true, .number x.abs⟩]
  else [⟨false, .number x.abs⟩]

def Coord.marks (c : Coord) : List Mark := numberMarks c.x ++ numberMarks c.y

/-- Both axes are finite. -/
structure Coord.IsFinite (c : Coord) : Prop where
  x : c.x.isFinite = true
  y : c.y.isFinite = true

section

variable {good : Memory → Prop} {tokens : List Token} {n k : Nat} {sub : Goal → TokenReader Expr}
  {next : Kind → Prop} {x : Float}

/-- The sign in front of a number that touches it, and that touches nothing before it, is its
sign. -/
theorem atCoordinateSign_of_marked {previous : Option Token} {t u : Token} {rest : List Token}
    {y : Float} {i : Nat} (h : Marked previous [⟨false, .symbol .minus⟩, ⟨true, .number y⟩] [t, u]) :
    (Cursor.mk previous (t :: u :: rest) i).atCoordinateSign = true := by
  obtain ⟨ht, hu, -⟩ := h
  have hkind : u.kind = .number y := hu.kind
  have htouch : t.touches u = true := hu.touches rfl t rfl
  have hnumber : (t :: u :: rest)[1]? = some u := rfl
  have htoken : (Cursor.mk previous (t :: u :: rest) i).token = t := rfl
  simp only [Cursor.atCoordinateSign, hnumber, hkind, htoken, htouch, Bool.true_and]
  cases previous with
  | none => rfl
  | some p =>
    rcases ht.apart rfl p rfl with h | h | h
    · simp [h]
    · simp [h]
    · simp [h]

theorem coord_of_number (c : Cursor) (m : Memory) (hk : c.kind = .number x) :
    coord k sub c m = (.ok (.number x c.token.position) c.advance, m) := by
  rw [coord, bind_eq (show here c m = (.ok c c, m) from rfl)]
  simp only [hk]
  rfl

theorem coord_of_sign (c : Cursor) (m : Memory) (hk : c.kind = .symbol .minus)
    (hsign : c.atCoordinateSign = true) (hx : c.advance.kind = .number x) :
    coord k sub c m = (.ok (.number (-x) c.token.position) c.advance.advance, m) := by
  rw [coord, bind_eq (show here c m = (.ok c c, m) from rfl)]
  simp only [hk, hsign, or_true, and_self, if_true]
  rw [bind_eq (show TokenReader.next c m = (.ok c.token c.advance, m) from rfl),
    bind_eq (show TokenReader.next c.advance m = (.ok c.advance.token c.advance.advance, m) from rfl)]
  have hx : c.advance.token.kind = .number x := hx
  simp only [hx]
  rfl

/-- A number is read as a coordinate, with its sign if it has one. -/
theorem takes_coord_number (hx : x.isFinite = true) :
    TakesWith good tokens n (coord k sub) (numberMarks x) next (fun e => ∃ p, e = .number x p) := by
  have hvalue := Decimal.signed_abs hx
  intro previous ts u us i m _ hm _ hg _
  unfold numberMarks at hm
  cases hsign : Decimal.isSigned x with
  | false =>
    rw [hsign] at hm hvalue
    obtain ⟨t, rfl⟩ := List.length_eq_one_iff.1 hm.length_eq
    refine ⟨.number x t.position, m, ?_, hg, _, rfl⟩
    have hkind : t.kind = .number x := hm.1.kind.trans (congrArg Kind.number hvalue)
    exact coord_of_number ⟨previous, t :: u :: us, i⟩ m hkind
  | true =>
    rw [hsign] at hm hvalue
    obtain ⟨s, t, rfl⟩ := List.length_eq_two.1 hm.length_eq
    refine ⟨.number x s.position, m, ?_, hg, _, rfl⟩
    rw [← show -x.abs = x from hvalue]
    exact coord_of_sign ⟨previous, s :: t :: u :: us, i⟩ m hm.1.kind
      (atCoordinateSign_of_marked hm) hm.2.1.kind

theorem takes_coord (hx : x.isFinite = true) :
    TakesWith good tokens n (coord k sub) (numberMarks x) next (Expr.Denotes (.number x)) := by
  refine (takes_coord_number hx).imp (fun _ h => h) ?_
  rintro e ⟨p, rfl⟩
  exact Expr.denotes_number x p

/-- The two expressions have the axes of a position as their values. -/
def IsPair (c : Coord) (xy : Expr × Expr) : Prop :=
  xy.1.Denotes (.number c.x) ∧ xy.2.Denotes (.number c.y)

theorem takes_extraCoord_none :
    TakesWith good tokens n (extraCoord k sub) [] Delimits (· = false) := by
  intro previous ts u us i m _ hm hu hg _
  obtain rfl := List.eq_nil_of_length_eq_zero hm.length_eq
  refine ⟨false, m, ?_, hg, rfl⟩
  have hstart : (Cursor.mk previous (u :: us) i).startsCoord = false := by
    have hkind : (Cursor.mk previous (u :: us) i).kind = u.kind := rfl
    rcases hu with hu | hu <;> rw [Cursor.startsCoord, hkind, hu]
  rw [List.nil_append, extraCoord, bind_eq (show here _ m = (.ok _ _, m) from rfl), hstart]
  rfl

section

variable {ms ns : List Mark} {P Q : Expr → Prop} {R : Expr × Expr → Prop}

theorem takes_pair (hx : TakesWith good tokens n (coord k sub) ms (fun _ => True) P)
    (hy : TakesWith good tokens n (coord k sub) ns (fun _ => True) Q) :
    TakesWith good tokens n (pair k sub) (ms ++ ns) Delimits (fun xy => P xy.1 ∧ Q xy.2) := by
  refine hx.bind follows_any fun x hx => ?_
  refine ((hy.mono (Nat.sub_le _ _)).before fun _ _ => trivial).bind_pure fun y hy => ?_
  refine takes_extraCoord_none.bind_pure fun b hb => ?_
  subst hb
  exact takes_pure ⟨hx, hy⟩

theorem takes_pairBeforeDelimiter (h : TakesWith good tokens n (pair k sub) ms Delimits R) :
    TakesWith good tokens n (pairBeforeDelimiter k sub) ms Delimits
      (fun r => ∃ xy, r = some xy ∧ R xy) := by
  refine h.bind_pure fun xy hxy => ?_
  refine takes_peekKind.bind_pure fun kind hkind => ?_
  rcases hkind with rfl | rfl
  · exact takes_pure ⟨xy, rfl, hxy⟩
  · exact takes_pure ⟨xy, rfl, hxy⟩

/-- A pair in parentheses, where a pair is not missed. -/
theorem takes_tryParenthesizedPair {glued : Bool} (h : TakesWith good tokens n (tryPair k sub) ms
      Delimits (fun r => ∃ xy, r = some xy ∧ R xy)) :
    TakesWith good tokens n (tryParenthesizedPair k sub)
      (⟨false, .symbol .lparen⟩ :: (ms ++ [⟨glued, .symbol .rparen⟩])) next
      (fun r => ∃ xy, r = some xy ∧ R xy) := by
  refine takes_attempt ?_
  refine (takes_accept (.symbol .lparen) false).bind_cons ?_
  rintro b rfl
  refine (h.mono (Nat.sub_le _ _)).bind (.inr rfl) ?_
  rintro r ⟨xy, rfl, hxy⟩
  refine (takes_accept (.symbol .rparen) glued).bind_pure ?_
  rintro b rfl
  exact takes_pure ⟨xy, rfl, hxy⟩

end

variable {c : Coord}

/-- There is a pair of expressions with the axes of a position as their values. -/
def IsSomePair (c : Coord) (r : Option (Expr × Expr)) : Prop := ∃ xy, r = some xy ∧ IsPair c xy

theorem getElem?_of_drop {i : Nat} {t : Token} {ts : List Token} (h : tokens.drop i = t :: ts) :
    tokens[i]? = some t := by
  have hhead := congrArg List.head? h
  rwa [List.head?_drop] at hhead

/-- A position starts with a number or a sign. -/
theorem startsNumber_of_marked {previous : Option Token} {ts : List Token}
    (h : Marked previous c.marks ts) : ∃ t ts', ts = t :: ts' ∧ t.kind.startsNumber = true := by
  unfold Coord.marks numberMarks at h
  cases ts with
  | nil => split at h <;> cases h
  | cons t ts =>
    refine ⟨t, ts, rfl, ?_⟩
    split at h
    · rw [h.1.kind]
      rfl
    · rw [h.1.kind]
      rfl

/-- **A pair is read wherever one is tried.** It cannot have been tried there in vain. -/
theorem takes_tryPair (hc : c.IsFinite) :
    Takes tokens n (tryPair k sub) c.marks Delimits (IsSomePair c) := by
  intro previous ts u us i m hd hm hu hg hlt
  obtain ⟨t, ts', rfl, hkind⟩ := startsNumber_of_marked hm
  have hfresh : m.isFailed i = false := by
    by_contra hfailed
    have := hg i (by simpa using hfailed) t (getElem?_of_drop hd)
    rw [hkind] at this
    cases this
  obtain ⟨r, m', hrun, hg', xy, rfl, hxy⟩ :=
    takes_pairBeforeDelimiter (takes_pair (takes_coord hc.x) (takes_coord hc.y)) previous (t :: ts')
      u us i m hd hm hu hg hlt
  refine ⟨some xy, m', ?_, hg', xy, rfl, hxy⟩
  rw [tryPair, if_neg (by simp [hfresh]), attempt, hrun]

theorem takes_element_pair (hc : c.IsFinite) :
    Takes tokens n (element k sub) c.marks Delimits (Element.IsCoord c) := by
  refine (takes_tryPair hc).bind_pure fun r hr => ?_
  obtain ⟨⟨x, y⟩, rfl, hx, hy⟩ := hr
  exact takes_pure (Element.isCoord_pair hx hy)

/-! ## Expressions -/

/-- No accessor and no power goes on with a token of this kind, nor an operator of the levels. -/
structure Closes (ls : List Level) (k : Kind) : Prop where
  colon : k ≠ .symbol .colon
  caret : k ≠ .symbol .caret
  operator : ∀ l ∈ ls, l.operator? k = none

/-- All levels, loosest first. -/
def allLevels : List Level :=
  [.or, .and, .equality, .comparison, .pipeline, .additive, .multiplicative]

theorem closes_of_delimits {k : Kind} (hk : Delimits k) : Closes allLevels k := by
  rcases hk with rfl | rfl <;> exact ⟨by decide, by decide, by decide⟩

theorem closes_eof : Closes allLevels .eof := ⟨by decide, by decide, by decide⟩

theorem closes_number (y : Float) : Closes allLevels (.number y) := by
  refine ⟨nofun, nofun, fun l _ => ?_⟩
  cases l <;> rfl

variable {ms : List Mark} {P : Expr → Prop} {ls : List Level}

theorem takes_operations_none {l : Level} {operand : TokenReader Expr} {left : Expr} {fuel : Nat}
    (hfuel : 0 < fuel) (hn : ∀ kind, next kind → l.operator? kind = none) (hl : P left) :
    TakesWith good tokens n (operations l operand fuel left) [] next P := by
  obtain ⟨fuel, rfl⟩ := Nat.exists_eq_succ_of_ne_zero (Nat.ne_of_gt hfuel)
  refine takes_peekKind.bind_nil (fun _ h => h) fun kind hkind => ?_
  rw [hn kind hkind]
  exact takes_pure hl

/-- An expression without operators of the looser levels. -/
theorem takes_levels (outer : List Level) {inner : List Level} (hk : 0 < k)
    (hp : TakesWith good tokens n (levels k sub inner) ms next P)
    (hn : ∀ kind, next kind → ∀ l ∈ outer, l.operator? kind = none) :
    TakesWith good tokens n (levels k sub (outer ++ inner)) ms next P := by
  induction outer with
  | nil => exact hp
  | cons l outer ih =>
    refine (ih fun kind hkind m hm => hn kind hkind m (List.mem_cons_of_mem _ hm)).bind_pure ?_
    exact fun left hl =>
      takes_operations_none hk (fun kind hkind => hn kind hkind l List.mem_cons_self) hl

theorem takes_power (hu : TakesWith good tokens n (unary k sub) ms next P)
    (hn : ∀ kind, next kind → kind ≠ .symbol .caret) :
    TakesWith good tokens n (power k sub) ms next P := by
  refine hu.bind_pure fun e he => ?_
  refine (takes_accept_none (.symbol .caret)).bind_nil hn ?_
  rintro b rfl
  exact takes_pure he

/-- Primary expressions may have no sign before them and no accessor behind them. -/
theorem takes_unary (hk : 0 < k) (hp : TakesWith good tokens n (primary k sub) ms next P)
    (hminus : Follows (· ≠ .symbol .minus) ms next) (hbang : Follows (· ≠ .symbol .bang) ms next)
    (hn : ∀ kind, next kind → kind ≠ .symbol .colon) :
    TakesWith good tokens n (unary k sub) ms next P := by
  obtain ⟨k, rfl⟩ := Nat.exists_eq_succ_of_ne_zero (Nat.ne_of_gt hk)
  refine takes_position.bind_nil follows_any fun _ _ => ?_
  refine (takes_accept_none (.symbol .minus)).bind_nil hminus ?_
  rintro b rfl
  refine (takes_accept_none (.symbol .bang)).bind_nil hbang ?_
  rintro b rfl
  refine hp.bind_pure fun e he => ?_
  refine (takes_accept_none (.symbol .colon)).bind_nil hn ?_
  rintro b rfl
  exact takes_pure he

theorem takes_run {g : Goal}
    (h : ∀ n, TakesWith good tokens (n + 1) (goal (n + 1) (run n) g) ms next P) (n : Nat) :
    TakesWith good tokens n (run n g) ms next P := by
  refine takes_of_pos fun hn => ?_
  obtain ⟨n, rfl⟩ := Nat.exists_eq_succ_of_ne_zero (Nat.ne_of_gt hn)
  exact h n

theorem takes_expression_of_unary
    (hu : TakesWith good tokens (n + 1) (unary (n + 1) (run n)) ms next P)
    (hn : ∀ kind, next kind → Closes allLevels kind) :
    TakesWith good tokens (n + 1) (expression (n + 1) (run n)) ms next P := by
  have hpower : TakesWith good tokens (n + 1) (levels (n + 1) (run n) []) ms next P :=
    takes_power hu fun kind h => (hn kind h).caret
  exact takes_levels allLevels (Nat.succ_pos n) hpower fun kind h => (hn kind h).operator

theorem takes_expression (hp : TakesWith good tokens (n + 1) (primary (n + 1) (run n)) ms next P)
    (hminus : Follows (· ≠ .symbol .minus) ms next) (hbang : Follows (· ≠ .symbol .bang) ms next)
    (hn : ∀ kind, next kind → Closes allLevels kind) :
    TakesWith good tokens (n + 1) (expression (n + 1) (run n)) ms next P :=
  takes_expression_of_unary
    (takes_unary (Nat.succ_pos n) hp hminus hbang fun kind h => (hn kind h).colon) hn

/-! ### Numbers as expressions -/

theorem takes_primary_number (glued : Bool) :
    Takes tokens n (primary k sub) [⟨glued, .number x⟩] next (fun _ => True) := by
  refine takes_position.bind_nil follows_any fun _ _ => ?_
  refine TakesWith.bind_peek ?_
  exact (takes_next (.number x) glued).bind_pure fun _ _ => takes_pure trivial

theorem takes_unary_number (glued : Bool) (hk : 0 < k) :
    Takes tokens n (unary k sub) [⟨glued, .number x⟩] (Closes ls) (fun _ => True) :=
  takes_unary hk (takes_primary_number glued) nofun nofun fun _ h => h.colon

theorem takes_unary_signed :
    Takes tokens (n + 1) (unary (n + 1) (run n)) (numberMarks x) (Closes ls) (fun _ => True) := by
  unfold numberMarks
  split
  · refine takes_position.bind_nil follows_any fun _ _ => ?_
    refine (takes_accept (.symbol .minus) false).bind_cons ?_
    rintro b rfl
    have hnumber : Takes tokens n (run n .unary) [⟨true, .number x.abs⟩] (Closes ls)
        (fun _ => True) :=
      takes_run (fun n => takes_unary_number true (Nat.succ_pos n)) n
    exact hnumber.bind_pure fun _ _ => takes_pure trivial
  · exact takes_unary_number false (Nat.succ_pos n)

theorem takes_levels_number (ls : List Level) : Takes tokens (n + 1) (levels (n + 1) (run n) ls)
    (numberMarks x) (Closes ls) (fun _ => True) := by
  have hpower : Takes tokens (n + 1) (levels (n + 1) (run n) []) (numberMarks x) (Closes ls)
      (fun _ => True) :=
    takes_power takes_unary_signed fun _ h => h.caret
  have h := takes_levels ls (Nat.succ_pos n) hpower fun _ h => h.operator
  rwa [List.append_nil] at h

/-- A number and a sign with a number behind it, read as a difference. -/
theorem takes_difference {y : Float} :
    Takes tokens (n + 1) (levels (n + 1) (run n) [.additive, .multiplicative])
      (numberMarks x ++ [⟨false, .symbol .minus⟩, ⟨true, .number y⟩])
      (Closes [.additive, .multiplicative]) (fun _ => True) := by
  have hnumber : Takes tokens (n + 1) (levels (n + 1) (run n) [.multiplicative])
      [⟨true, .number y⟩] (Closes [.additive, .multiplicative]) (fun _ => True) :=
    takes_levels [.multiplicative] (Nat.succ_pos n)
      (takes_power (takes_unary_number true (Nat.succ_pos n)) fun _ h => h.caret)
      fun _ h l hl => h.operator l (List.mem_cons_of_mem _ hl)
  refine (takes_levels_number [.multiplicative]).bind ⟨nofun, nofun, by decide⟩ fun left _ => ?_
  refine TakesWith.bind_peek ?_
  refine (takes_next (.symbol .minus) false).bind_cons fun _ _ => ?_
  refine takes_of_pos fun hpos => ?_
  refine (hnumber.mono (by omega)).bind_pure fun right _ => ?_
  exact takes_operations_none (by omega) (fun _ h => h.operator _ List.mem_cons_self) trivial

/-! ## Pairs tried in vain -/

/-- No coordinate starts with a token of this kind. -/
def Token.Kind.refusesCoord : Kind → Bool
  | .number _ | .ident _ | .symbol .lparen | .symbol .plus | .symbol .minus => false
  | _ => true

theorem coord_of_not_startsCoord (c : Cursor) (m : Memory) (h : c.startsCoord = false) :
    coord k sub c m = (.error ⟨.unexpected .coordinate c.kind, c.token.position⟩, m) := by
  rw [coord, bind_eq (show here c m = (.ok c c, m) from rfl)]
  unfold Cursor.startsCoord at h
  split at h
  · cases h
  · cases h
  · cases h
  · next hk => simp [hk, h, unexpected]
  · next hk => simp [hk, h, unexpected]
  · next hnumber hident hlparen hplus hminus =>
    cases hk : c.kind with
    | number y => exact absurd hk (hnumber y)
    | ident name => exact absurd hk (hident name)
    | symbol s =>
      have hs : ¬ ((s = .plus ∨ s = .minus) ∧ c.atCoordinateSign = true) := by
        rintro ⟨rfl | rfl, -⟩
        · exact hplus hk
        · exact hminus hk
      cases s <;> simp_all [unexpected]
    | _ => simp [unexpected, hk]

theorem fails_coord (h : Follows (·.refusesCoord = true) ms next) :
    FailsWith good tokens n (coord k sub) ms next := by
  intro previous ts u us i m _ hm hu hg _
  obtain ⟨v, vs, hv, hkind⟩ := h.exists_token hm hu us
  have hk : (Cursor.mk previous (v :: vs) i).kind = v.kind := rfl
  have hstart : (Cursor.mk previous (v :: vs) i).startsCoord = false := by
    unfold Cursor.startsCoord
    rw [hk]
    split <;> simp_all [Token.Kind.refusesCoord]
  rw [hv]
  exact ⟨_, m, coord_of_not_startsCoord _ m hstart, hg⟩

theorem fails_coord_delimiter : FailsWith good tokens n (coord k sub) [] Delimits :=
  fails_coord (by rintro k (rfl | rfl) <;> rfl)

/-- What a coordinate in parentheses is read by. -/
def group (sub : Goal → TokenReader Expr) : TokenReader Expr := do
  let _ ← TokenReader.next
  let e ← sub .expression
  expect (.symbol .rparen)
  return e

theorem coord_of_lparen (c : Cursor) (m : Memory) (hk : c.kind = .symbol .lparen) :
    coord k sub c m = group sub c m := by
  rw [coord, bind_eq (show here c m = (.ok c c, m) from rfl)]
  simp only [hk]
  rfl

theorem takes_expression_number : Takes tokens n (run n .expression) (numberMarks x)
    (Closes allLevels) (fun _ => True) :=
  takes_run (fun _ => takes_levels_number allLevels) n

theorem takes_expression_difference {y : Float} : Takes tokens n (run n .expression)
    (numberMarks x ++ [⟨false, .symbol .minus⟩, ⟨true, .number y⟩]) (Closes allLevels)
    (fun _ => True) := by
  refine takes_run (fun n => ?_) n
  have hinner : ∀ kind, Closes allLevels kind → Closes [.additive, .multiplicative] kind :=
    fun kind h => ⟨h.colon, h.caret, fun l hl => h.operator l (by cases l <;> simp [allLevels])⟩
  exact takes_levels [.or, .and, .equality, .comparison, .pipeline] (Nat.succ_pos n)
    (takes_difference.before hinner)
    fun kind h l _ => h.operator l (by cases l <;> simp [allLevels])

/-- A point in parentheses of its own. -/
def pointMarks (c : Coord) : List Mark :=
  ⟨false, .symbol .lparen⟩ :: (c.marks ++ [⟨true, .symbol .rparen⟩])

/-- **No pair starts at the parenthesis of a point.** What the parentheses hold is one expression
only if the sign of the second number is taken for a difference, and then no second coordinate is
left. -/
theorem fails_pair_point :
    Fails tokens (n + 1) (pair (n + 1) (run n)) (pointMarks c) Delimits := by
  unfold pointMarks Coord.marks
  rw [List.append_assoc]
  cases hy : Decimal.isSigned c.y with
  | false =>
    have hmarks : numberMarks c.y = [⟨false, .number c.y.abs⟩] := by simp [numberMarks, hy]
    rw [hmarks]
    refine FailsWith.bind (FailsWith.congr coord_of_lparen ?_) _
    refine (takes_next (.symbol .lparen) false).bind_cons_fails fun _ _ => ?_
    refine takes_expression_number.bind_fails (closes_number _) fun _ _ => ?_
    have hne : Kind.number c.y.abs ≠ .symbol .rparen := nofun
    exact FailsWith.bind (fails_expect hne false) _
  | true =>
    have hmarks : numberMarks c.y = [⟨false, .symbol .minus⟩, ⟨true, .number c.y.abs⟩] := by
      simp [numberMarks, hy]
    have hcoord : Takes tokens (n + 1) (coord (n + 1) (run n)) (⟨false, .symbol .lparen⟩ ::
        (numberMarks c.x ++ numberMarks c.y ++ [⟨true, .symbol .rparen⟩])) Delimits
        (fun _ => True) := by
      rw [hmarks]
      refine TakesWith.congr coord_of_lparen ?_
      refine (takes_next (.symbol .lparen) false).bind_cons fun _ _ => ?_
      refine takes_expression_difference.bind (closes_of_delimits (.inr rfl)) fun _ _ => ?_
      exact (takes_expect (.symbol .rparen) true).bind_pure fun _ _ => takes_pure trivial
    rw [← List.append_assoc, ← List.append_nil (_ :: _)]
    exact hcoord.bind_fails (fun _ h => h) fun _ _ => FailsWith.bind fails_coord_delimiter _

/-! ## Entries of lists -/

/-- A pair that cannot be read is not there, and nothing is passed. -/
theorem declines_tryPair {mark : Mark} (hf : Fails tokens n (pair k sub) (mark :: ms) next)
    (hstart : mark.kind.startsNumber = false) :
    DeclinesWith (GoodMemory tokens) tokens n (tryPair k sub) (mark :: ms) next := by
  intro previous ts u us i m hd hm hu hg hlt
  cases ts with
  | nil => cases hm
  | cons t ts =>
    rw [tryPair]
    split
    · exact ⟨m, rfl, hg⟩
    · obtain ⟨e, m', hrun, hg'⟩ := hf.bind _ previous (t :: ts) u us i m hd hm hu hg hlt
      refine ⟨m'.addFailed i, ?_, hg'.addFailed (getElem?_of_drop hd) (hm.1.kind ▸ hstart)⟩
      rw [attempt, pairBeforeDelimiter, hrun]

theorem takes_element_value (htry : DeclinesWith good tokens n (tryPair k sub) ms next)
    (hsub : TakesWith good tokens n (sub .expression) ms next P) :
    TakesWith good tokens n (element k sub) ms next (fun e => ∃ v, e = .value v ∧ P v) :=
  htry.bind <| hsub.bind_pure fun e he => takes_pure ⟨e, rfl, he⟩

/-- A pair in parentheses is a point. -/
theorem takes_expression_point (hc : c.IsFinite) :
    Takes tokens n (run n .expression) (pointMarks c) Delimits
      (Expr.Denotes (.geometry (.point c))) := by
  refine takes_run (fun n => takes_expression ?_ (by simp [pointMarks, Follows])
    (by simp [pointMarks, Follows]) fun _ => closes_of_delimits) n
  refine takes_position.bind_nil follows_any fun _ _ => ?_
  refine TakesWith.bind_peek ?_
  refine takes_position.bind_nil follows_any fun p _ => ?_
  have hpair : Takes tokens (n + 1) (tryParenthesizedPair (n + 1) (run n)) (pointMarks c) Delimits
      (IsSomePair c) :=
    takes_tryParenthesizedPair (takes_tryPair hc)
  refine hpair.bind_pure ?_
  rintro r ⟨⟨x, y⟩, rfl, hx, hy⟩
  exact takes_pure (Expr.denotes_geometry (Body.denotes_point hx hy) p)

/-- **A point in parentheses is read**, though a pair is tried at its parenthesis first. -/
theorem takes_element_point (hc : c.IsFinite) :
    Takes tokens n (element (n + 1) (run n)) (pointMarks c) Delimits (Element.IsCoord c) := by
  refine (takes_element_value (declines_tryPair (fails_pair_point.mono (Nat.le_succ n)) rfl)
    (takes_expression_point hc)).imp (fun _ h => h) ?_
  rintro e ⟨v, rfl, hv⟩
  exact Element.isCoord_value hv

end

end GeoScript
