import GeoScript.Proofs.Enclosed

/-!
# Coordinates side by side

**Coordinates (`Coordinate`).** A coordinate is a number, with a sign only if it touches it, a name, a
name with arguments or an expression in parentheses. What stands between parentheses may be of any
size; it is what the parser takes on its own there.

**Where they stand (`Coordinate.read`).** A coordinate is read with the same meaning wherever it stands,
as long as its sign cannot be an operator between two operands. Nothing of what follows changes it,
except for a name: a parenthesis behind it opens a list of arguments.

**Two of them (`SideBySide`).** Two coordinates with something between them are a pair, unless the first
one is a name and the second one stands in parentheses (`CoordShape.Calls`). In this case the first one
takes the second one along and there is nothing left for the pair (`SideBySide.pair_call`). What becomes
of that depends on the place: in parentheses and in a list there may be any expression, so it is a call
(`SideBySide.primary`, `SideBySide.element`); behind the name of a shape there is an error
(`SideBySide.point`).
-/

namespace GeoScript

open Token (Kind)
open TokenReader Grammar

/-! ## Expressions that are primary -/

namespace Grammar

variable {n : Nat} {sub : Goal → TokenReader Expr} {c c' : Cursor} {m m' : Memory} {e : Expr}
  {error : SyntaxError}

theorem unary_eq (hminus : c.kind ≠ .symbol .minus) (hbang : c.kind ≠ .symbol .bang) :
    unary n sub c m = (primary n sub >>= accessors n sub n) c m := by
  have hunary : unary n sub c m = (accept (.symbol .minus) >>= fun isMinus =>
      if isMinus then do return .neg (← sub .unary) c.token.position
      else accept (.symbol .bang) >>= fun isBang =>
        if isBang then do return .not (← sub .unary) c.token.position
        else postfixed n sub) c m := rfl
  rw [hunary, accept_bind, if_neg hminus, if_neg (by simp), accept_bind, if_neg hbang,
    if_neg (by simp)]
  rfl

theorem operations_none {l : Level} {operand : TokenReader Expr} (hl : l.operator? c.kind = none)
    (k : Nat) : operations l operand (k + 1) e c m = (.ok e c, m) := by
  rw [operations, bind_eq (show peekKind c m = (.ok c.kind c, m) from rfl), hl]
  rfl

/-- A primary expression in front of a token that nothing goes on with. -/
theorem expression_of_primary (hminus : c.kind ≠ .symbol .minus) (hbang : c.kind ≠ .symbol .bang)
    (h : primary (n + 1) sub c m = (.ok e c', m')) (hclose : Closes allLevels c'.kind) :
    expression (n + 1) sub c m = (.ok e c', m') := by
  have hunary : unary (n + 1) sub c m = (.ok e c', m') := by
    rw [unary_eq hminus hbang, bind_eq h, accessors, accept_bind, if_neg hclose.colon]
    rfl
  have hpower : power (n + 1) sub c m = (.ok e c', m') := by
    rw [power, bind_eq hunary, accept_bind, if_neg hclose.caret]
    rfl
  have hlevels : ∀ ls : List Level, (∀ l ∈ ls, l.operator? c'.kind = none) →
      levels (n + 1) sub ls c m = (.ok e c', m') := by
    intro ls hls
    induction ls with
    | nil => exact hpower
    | cons l ls ih =>
      rw [levels, bind_eq (ih fun l' hl' => hls l' (List.mem_cons_of_mem _ hl'))]
      exact operations_none (hls l List.mem_cons_self) n
  exact hlevels allLevels hclose.operator

/-- Where no primary expression can be read, no expression can. -/
theorem expression_of_primary_error (hminus : c.kind ≠ .symbol .minus)
    (hbang : c.kind ≠ .symbol .bang) (h : primary n sub c m = (.error error, m')) :
    expression n sub c m = (.error error, m') := by
  have hpower : power n sub c m = (.error error, m') := by
    apply bind_error
    rw [unary_eq hminus hbang]
    exact bind_error h
  have hlevels : ∀ ls : List Level, levels n sub ls c m = (.error error, m') := by
    intro ls
    induction ls with
    | nil => exact hpower
    | cons l ls ih => exact bind_error ih
  exact hlevels allLevels

/-- No expression starts with a closing parenthesis. -/
theorem expression_rparen (hk : c.kind = .symbol .rparen) :
    expression n sub c m = (.error ⟨.unexpected .expression (.symbol .rparen), c.token.position⟩, m) := by
  refine expression_of_primary_error (by simp [hk]) (by simp [hk]) ?_
  rw [primary, bind_eq (show position c m = (.ok c.token.position c, m) from rfl),
    bind_eq (show peekKind c m = (.ok c.kind c, m) from rfl), hk]
  simp only [unexpected, hk]

end Grammar

/-! ## Coordinates -/

/-- What a coordinate consists of: a number that may have a sign, a name, a name with arguments, or an
expression in parentheses. -/
inductive CoordShape where
  | number | name | call | group
  deriving DecidableEq

/-- The tokens are a coordinate that is read as the expression. -/
inductive Coordinate : CoordShape → List Token → Expr → Prop
  | number {t : Token} {x : Float} : t.kind = .number x →
    Coordinate .number [t] (.number x t.position)
  | plus {s t : Token} {x : Float} : s.kind = .symbol .plus → t.kind = .number x →
    s.touches t = true → Coordinate .number [s, t] (.number x s.position)
  | minus {s t : Token} {x : Float} : s.kind = .symbol .minus → t.kind = .number x →
    s.touches t = true → Coordinate .number [s, t] (.number (-x) s.position)
  | name {t : Token} {name : String} : t.kind = .ident name →
    Coordinate .name [t] (.ident name t.position)
  | call {t o : Token} {ts : List Token} {name : String} {args : List Expr} : t.kind = .ident name →
    Alone (fun n => arguments (n + 1) (run n)) (o :: ts) args →
    Coordinate .call (t :: o :: ts) (.call (.ident name t.position) args)
  | group {o : Token} {ts : List Token} {e : Expr} : o.kind = .symbol .lparen →
    Alone (fun n => group (run n)) (o :: ts) e → Coordinate .group (o :: ts) e

/-- An expression in parentheses is a list of one argument as well. -/
theorem Alone.arguments_of_group {o : Token} {ts : List Token} {e : Expr}
    (ho : o.kind = .symbol .lparen) (h : Alone (fun n => GeoScript.group (run n)) (o :: ts) e) :
    Alone (fun n => Grammar.arguments (n + 1) (run n)) (o :: ts) [e] := by
  obtain ⟨mark, hmark, hrun⟩ := h
  obtain ⟨c₁, hread, hclose, hend⟩ := group_eq_ok_iff.1 hrun
  refine ⟨mark, hmark, arguments_eq_ok_iff.2 ⟨ho, .inr ⟨fun hk => ?_, ?_⟩⟩⟩
  · rw [List.length_cons, run, goal, expression_rparen hk] at hread
    cases hread
  · exact items_eq_ok_iff.2 ⟨e, c₁, none, hread, .inr ⟨hclose, rfl, hend, rfl⟩⟩

section

variable {s : CoordShape} {ts before more : List Token} {t : Token} {e : Expr} {n : Nat}
  {f : Position → Position}

/-- A coordinate at other places is the same coordinate. -/
theorem Coordinate.moved (h : Coordinate s ts e) (hf : KeepsTouching f ts) :
    Coordinate s (ts.map (Token.moved f)) (e.placed f) := by
  cases h with
  | number hk =>
    rw [Expr.placed]
    exact .number hk
  | plus hs hk htouch =>
    rw [Expr.placed]
    exact .plus hs hk ((hf _ (by simp) _ (by simp)).trans htouch)
  | minus hs hk htouch =>
    rw [Expr.placed]
    exact .minus hs hk ((hf _ (by simp) _ (by simp)).trans htouch)
  | name hk =>
    rw [Expr.placed]
    exact .name hk
  | call hk hargs =>
    rw [Expr.placed, Expr.placedAll_eq, Expr.placed]
    refine .call hk (Alone.arguments_moved ?_ hargs)
    exact fun t ht u hu => hf t (List.mem_cons_of_mem _ ht) u (List.mem_cons_of_mem _ hu)
  | group ho hread => exact .group ho (hread.group_moved hf ho)

/-- A name is a coordinate together with an expression in parentheses behind it. -/
theorem Coordinate.name_group {us : List Token} {e' : Expr} (h : Coordinate .name ts e)
    (h' : Coordinate .group us e') : Coordinate .call (ts ++ us) (.call e [e']) := by
  cases h with
  | name hk =>
    cases h' with
    | group ho hread => exact .call hk (hread.arguments_of_group ho)

/-- How a coordinate starts. -/
theorem Coordinate.exists_cons (h : Coordinate s ts e) : ∃ u us, ts = u :: us ∧
    u.kind ≠ .symbol .equal ∧ (u.kind = .symbol .lparen ↔ s = .group) := by
  cases h with
  | number hk => exact ⟨_, _, rfl, by simp [hk], by simp [hk]⟩
  | plus hs => exact ⟨_, _, rfl, by simp [hs], by simp [hs]⟩
  | minus hs => exact ⟨_, _, rfl, by simp [hs], by simp [hs]⟩
  | name hk => exact ⟨_, _, rfl, by simp [hk], by simp [hk]⟩
  | call hk => exact ⟨_, _, rfl, by simp [hk], by simp [hk]⟩
  | group ho => exact ⟨_, _, rfl, by simp [ho], by simp [ho]⟩

/-- The sign of a number is its sign if it stands apart from what is before it. -/
theorem atCoordinateSign_of_apart {sign : Token} {x : Float} (hk : t.kind = .number x)
    (htouch : sign.touches t = true) (hbefore : ∀ u ∈ before.getLast?, u.Apart sign) :
    (Cursor.behind before (sign :: t :: more)).atCoordinateSign = true := by
  have hsecond : (Cursor.behind before (sign :: t :: more)).rest[1]? = some t := rfl
  have htoken : (Cursor.behind before (sign :: t :: more)).token = sign := rfl
  simp only [Cursor.atCoordinateSign, hsecond, hk, htoken, htouch, Bool.true_and]
  cases hlast : before.getLast? with
  | none => simp [Cursor.behind, hlast]
  | some u =>
    have hprevious : (Cursor.behind before (sign :: t :: more)).previous = some u := hlast
    rw [hprevious]
    rcases hbefore u hlast with h | h | h
    · simp [h]
    · simp [h]
    · simp [h]

theorem coord_of_plus {k : Nat} {sub : Goal → TokenReader Expr} {x : Float} (c : Cursor) (m : Memory)
    (hk : c.kind = .symbol .plus) (hsign : c.atCoordinateSign = true)
    (hx : c.advance.kind = .number x) :
    coord k sub c m = (.ok (.number x c.token.position) c.advance.advance, m) := by
  rw [coord, bind_eq (show here c m = (.ok c c, m) from rfl)]
  simp only [hk, hsign, true_or, and_self, if_true]
  rw [bind_eq (show TokenReader.next c m = (.ok c.token c.advance, m) from rfl),
    bind_eq (show TokenReader.next c.advance m = (.ok c.advance.token c.advance.advance, m) from rfl)]
  have hx : c.advance.token.kind = .number x := hx
  simp only [hx]
  rfl

theorem Cursor.advance_behind_cons (passed : List Token) (u v : Token) (vs : List Token) :
    (behind passed (u :: v :: vs)).advance = behind (passed ++ [u]) (v :: vs) :=
  advance_behind passed [] u v vs

/-- In front of a number with a sign. -/
theorem signed_behind {sign u : Token} {x : Float} (t : Token) (more : List Token)
    (hk : u.kind = .number x) (htouch : sign.touches u = true)
    (hbefore : ∀ v ∈ before.getLast?, v.Apart sign) :
    (Cursor.behind before (sign :: u :: t :: more)).atCoordinateSign = true ∧
      (Cursor.behind before (sign :: u :: t :: more)).advance.kind = .number x ∧
      (Cursor.behind before (sign :: u :: t :: more)).advance.advance =
        .behind (before ++ [sign, u]) (t :: more) := by
  refine ⟨atCoordinateSign_of_apart hk htouch hbefore, ?_, ?_⟩
  · rw [Cursor.advance_behind_cons]
    exact hk
  · rw [Cursor.advance_behind_cons, Cursor.advance_behind_cons, List.append_assoc]
    rfl

theorem named_eq {k : Nat} {sub : Goal → TokenReader Expr} (name : String) (c : Cursor) (m : Memory) :
    named k sub name c m = callTail k sub (.ident name c.token.position) c.advance m := rfl

theorem callTail_none {k : Nat} {sub : Goal → TokenReader Expr} {c : Cursor} {m : Memory} {callee : Expr}
    (hk : c.kind ≠ .symbol .lparen) : callTail k sub callee c m = (.ok callee c, m) := by
  rw [callTail, bind_eq (show peekKind c m = (.ok c.kind c, m) from rfl), if_neg (by simpa using hk)]
  rfl

theorem callTail_of_arguments {k : Nat} {sub : Goal → TokenReader Expr} {c c' : Cursor}
    {m m' : Memory} {callee : Expr} {args : List Expr}
    (h : arguments k sub c m = (.ok args c', m')) :
    callTail k sub callee c m = (.ok (.call callee args) c', m') := by
  have hk := (arguments_eq_ok_iff.1 h).1
  rw [callTail, bind_eq (show peekKind c m = (.ok c.kind c, m) from rfl), hk,
    if_pos (beq_self_eq_true _), bind_eq h]
  rfl

/-- **A coordinate is read wherever it stands**, unless a name is followed by a parenthesis. -/
theorem Coordinate.read (h : Coordinate s ts e)
    (hbefore : ∀ u ∈ before.getLast?, ∀ v ∈ ts.head?, u.Apart v)
    (htail : s = .name → t.kind ≠ .symbol .lparen) (ht : t.kind ≠ .symbol .equal)
    (hn : ts.length ≤ n) :
    coord (n + 1) (run n) (.behind before (ts ++ t :: more)) none =
      (.ok e (.behind (before ++ ts) (t :: more)), none) := by
  have hid : Expr.placed id = id := funext Expr.placed_id
  cases h with
  | @number u x hk =>
    have hread : coord (n + 1) (run n) (.behind before (u :: t :: more)) none = _ :=
      coord_of_number _ none hk
    rw [Cursor.advance_behind_cons] at hread
    exact hread
  | @plus sign u x hs hk htouch =>
    obtain ⟨hsign, hnext, hend⟩ := signed_behind t more hk htouch fun v hv => hbefore v hv sign rfl
    have hread : coord (n + 1) (run n) (.behind before (sign :: u :: t :: more)) none = _ :=
      coord_of_plus _ none hs hsign hnext
    rw [hend] at hread
    exact hread
  | @minus sign u x hs hk htouch =>
    obtain ⟨hsign, hnext, hend⟩ := signed_behind t more hk htouch fun v hv => hbefore v hv sign rfl
    have hread : coord (n + 1) (run n) (.behind before (sign :: u :: t :: more)) none = _ :=
      coord_of_sign _ none hs hsign hnext
    rw [hend] at hread
    exact hread
  | @name u name hk =>
    have htail : (Cursor.behind (before ++ [u]) (t :: more)).kind ≠ .symbol .lparen := htail rfl
    have hread : coord (n + 1) (run n) (.behind before (u :: t :: more)) none = _ :=
      coord_of_ident _ none hk
    rw [named_eq, Cursor.advance_behind_cons, callTail_none htail] at hread
    exact hread
  | @call u o us name args hk hargs =>
    have hread : coord (n + 1) (run n) (.behind before (u :: o :: (us ++ t :: more))) none = _ :=
      coord_of_ident _ none hk
    have harguments :=
      hargs.arguments (before ++ [u]) more (keepsTouching_id _) ht (Nat.le_of_succ_le hn)
    rw [Token.moved_id, hid, List.map_id, List.map_id, List.append_assoc, List.cons_append]
      at harguments
    rw [named_eq, Cursor.advance_behind_cons, callTail_of_arguments harguments] at hread
    exact hread
  | @group o us e ho hread =>
    have hgroup := hread.group before more (keepsTouching_id _) ht hn ho
    rw [Token.moved_id, hid, List.map_id] at hgroup
    have hcoord : coord (n + 1) (run n) (.behind before (o :: us ++ t :: more)) none = _ :=
      coord_of_lparen _ none ho
    exact hcoord.trans hgroup

end

/-! ## Two coordinates -/

namespace Grammar

variable {n : Nat} {sub : Goal → TokenReader Expr} {c c' : Cursor} {m m' : Memory} {xy : Expr × Expr}

theorem ne_of_delimits {k : Kind} {s : Symbol} (hk : Delimits k) (hcomma : s ≠ .comma)
    (hrparen : s ≠ .rparen) : k ≠ .symbol s := by
  rcases hk with rfl | rfl
  · simpa using hcomma.symm
  · simpa using hrparen.symm

theorem refusesCoord_of_delimits (hk : Delimits c.kind) : c.startsCoord = false := by
  rcases hk with hk | hk <;> rw [Cursor.startsCoord, hk]

/-- Behind two coordinates in front of a delimiter, a pair is read. -/
theorem pair_of_coords {c₁ : Cursor} {m₁ : Memory} {x y : Expr}
    (hx : coord n sub c m = (.ok x c₁, m₁)) (hy : coord n sub c₁ m₁ = (.ok y c', m'))
    (hk : Delimits c'.kind) : pair n sub c m = (.ok (x, y) c', m') := by
  have hextra : extraCoord n sub c' m' = (.ok false c', m') := by
    rw [extraCoord, bind_eq (show here c' m' = (.ok c' c', m') from rfl), refusesCoord_of_delimits hk]
    rfl
  rw [pair, bind_eq hx, bind_eq hy, bind_eq hextra]
  rfl

/-- Behind one coordinate in front of a delimiter, a second one is missing. -/
theorem pair_of_coord {x : Expr} (hx : coord n sub c m = (.ok x c', m')) (hk : Delimits c'.kind) :
    pair n sub c m = (.error ⟨.unexpected .coordinate c'.kind, c'.token.position⟩, m') := by
  rw [pair, bind_eq hx]
  exact bind_error (coord_of_not_startsCoord c' m' (refusesCoord_of_delimits hk))

theorem tryPair_of_pair (h : pair n sub c none = (.ok xy c', none)) (hk : Delimits c'.kind) :
    tryPair n sub c none = (.ok (some xy) c', none) := by
  have hbefore : pairBeforeDelimiter n sub c none = (.ok (some xy) c', none) := by
    rw [pairBeforeDelimiter, bind_eq h, bind_eq (show peekKind c' none = (.ok c'.kind c', none) from rfl)]
    rcases hk with hk | hk
    · rw [hk]
      rfl
    · rw [hk]
      rfl
  rw [tryPair_of_fresh rfl, attempt, hbefore]

theorem tryPair_of_error {e : SyntaxError} (h : pair n sub c none = (.error e, none)) :
    tryPair n sub c none = (.ok none c, none) := by
  rw [tryPair_of_fresh rfl, attempt, pairBeforeDelimiter, bind_error h]
  rfl

theorem tryParenthesizedPair_some (hk : c.kind = .symbol .lparen) {c₁ : Cursor}
    (h : tryPair n sub c.advance m = (.ok (some xy) c₁, m')) (hclose : c₁.kind = .symbol .rparen) :
    tryParenthesizedPair n sub c m = (.ok (some xy) c₁.advance, m') := by
  rw [tryParenthesizedPair, attempt, accept_bind, if_pos hk, if_pos rfl, bind_eq h]
  dsimp only
  rw [accept_bind, if_pos hclose]
  rfl

theorem tryParenthesizedPair_none (hk : c.kind = .symbol .lparen) {c₁ : Cursor}
    (h : tryPair n sub c.advance m = (.ok none c₁, m')) :
    tryParenthesizedPair n sub c m = (.ok none c, m') := by
  rw [tryParenthesizedPair, attempt, accept_bind, if_pos hk, if_pos rfl, bind_eq h]
  rfl

theorem primary_of_lparen (hk : c.kind = .symbol .lparen) :
    primary n sub c m = parenthesized n sub c m := by
  rw [primary, bind_eq (show position c m = (.ok c.token.position c, m) from rfl),
    bind_eq (show peekKind c m = (.ok c.kind c, m) from rfl), hk]

/-- A pair in parentheses is a point. -/
theorem parenthesized_some (h : tryParenthesizedPair n sub c m = (.ok (some xy) c', m')) :
    parenthesized n sub c m = (.ok (.geometry .point (.point xy.1 xy.2) c.token.position) c', m') := by
  rw [parenthesized, bind_eq (show position c m = (.ok c.token.position c, m) from rfl), bind_eq h]
  rfl

/-- Where there is no pair in the parentheses, there may be an expression. -/
theorem parenthesized_none (h : tryParenthesizedPair n sub c m = (.ok none c, m')) :
    parenthesized n sub c m = group sub c m' := by
  rw [parenthesized, bind_eq (show position c m = (.ok c.token.position c, m) from rfl), bind_eq h]
  rfl

/-- What is read from the name of a shape on, if a parenthesis follows it. -/
theorem primary_of_shape {kind : Geometry.Kind} (hk : c.kind = .geometry kind)
    (ho : c.advance.kind = .symbol .lparen) : primary n sub c m =
      (body n sub kind >>= fun b => pure (.geometry kind b c.token.position)) c.advance m := by
  rw [primary, bind_eq (show position c m = (.ok c.token.position c, m) from rfl),
    bind_eq (show peekKind c m = (.ok c.kind c, m) from rfl), hk]
  dsimp only
  rw [geometry, bind_eq (show position c m = (.ok c.token.position c, m) from rfl),
    bind_eq (show TokenReader.next c m = (.ok c.token c.advance, m) from rfl),
    bind_eq (show peekKind c.advance m = (.ok c.advance.kind c.advance, m) from rfl), ho]

theorem body_point_of_pair (ho : c.kind = .symbol .lparen) (h : pair n sub c.advance m = (.ok xy c', m'))
    (hz : c'.kind = .symbol .rparen) :
    body n sub .point c m = (.ok (.point xy.1 xy.2) c'.advance, m') := by
  rw [body, expect_bind, if_pos ho, bind_eq h]
  dsimp only
  rw [expect_bind, if_pos hz]
  rfl

theorem body_point_of_error {e : SyntaxError} (ho : c.kind = .symbol .lparen)
    (h : pair n sub c.advance m = (.error e, m')) : body n sub .point c m = (.error e, m') := by
  rw [body, expect_bind, if_pos ho]
  exact bind_error h

theorem element_some (h : tryPair n sub c m = (.ok (some xy) c', m')) :
    element n sub c m = (.ok (.pair xy.1 xy.2) c', m') := by
  rw [element, bind_eq h]
  rfl

theorem element_none {m₁ : Memory} {e : Expr} (h : tryPair n sub c m = (.ok none c, m₁))
    (he : sub .expression c m₁ = (.ok e c', m')) : element n sub c m = (.ok (.value e) c', m') := by
  rw [element, bind_eq h]
  exact bind_eq he

end Grammar

/-- A name takes an expression in parentheses behind it for its argument. -/
def CoordShape.Calls (s s' : CoordShape) : Prop := s = .name ∧ s' = .group

instance (s s' : CoordShape) : Decidable (s.Calls s') :=
  inferInstanceAs (Decidable (s = .name ∧ s' = .group))

/-- Two coordinates stand side by side, with something between them. -/
structure SideBySide (s s' : CoordShape) (ts us : List Token) (x y : Expr) : Prop where
  left : Coordinate s ts x
  right : Coordinate s' us y
  apart : ∀ t ∈ ts.getLast?, ∀ u ∈ us.head?, t.touches u = false

/-- No sign at the head of the tokens is held for an operator behind the tokens before. -/
def StandsApart (before ts : List Token) : Prop :=
  ∀ u ∈ before.getLast?, ∀ v ∈ ts.head?, u.Apart v

theorem standsApart_of_opened {o : Token} (before ts : List Token)
    (ho : o.kind = .symbol .lparen ∨ o.kind = .symbol .comma) : StandsApart (before ++ [o]) ts := by
  intro u hu v _
  rw [List.getLast?_concat] at hu
  rw [← Option.some.inj hu]
  exact .inr ho

namespace SideBySide

variable {s s' : CoordShape} {ts us before more : List Token} {x y : Expr} {d : Token} {n : Nat}

/-- **Two coordinates are a pair**, unless the first one calls the second one. -/
theorem pair (more : List Token) (h : SideBySide s s' ts us x y) (hcalls : ¬ s.Calls s')
    (hbefore : StandsApart before ts) (hd : Delimits d.kind) (hn : (ts ++ us).length ≤ n) :
    pair (n + 1) (run n) (.behind before (ts ++ us ++ d :: more)) none =
      (.ok (x, y) (.behind (before ++ (ts ++ us)) (d :: more)), none) := by
  obtain ⟨u, us', rfl, hequal, hparen⟩ := h.right.exists_cons
  obtain ⟨t, ts', rfl, -⟩ := h.left.exists_cons
  rw [List.length_append] at hn
  have hne : d.kind ≠ .symbol .lparen := ne_of_delimits hd (by decide) (by decide)
  have hequal' : d.kind ≠ .symbol .equal := ne_of_delimits hd (by decide) (by decide)
  have hx : coord (n + 1) (run n) (.behind before (t :: ts' ++ u :: us' ++ d :: more)) none =
      (.ok x (.behind (before ++ t :: ts') (u :: us' ++ d :: more)), none) := by
    rw [List.append_assoc]
    refine h.left.read hbefore (fun hs hk => ?_) hequal (by omega)
    exact hcalls ⟨hs, hparen.1 hk⟩
  have hy : coord (n + 1) (run n) (.behind (before ++ t :: ts') (u :: us' ++ d :: more)) none =
      (.ok y (.behind (before ++ t :: ts' ++ u :: us') (d :: more)), none) := by
    refine h.right.read (fun w hw v hv => ?_) (fun _ => hne) hequal' (by omega)
    rw [List.getLast?_append_of_ne_nil _ (List.cons_ne_nil _ _)] at hw
    exact .inl (h.apart w hw v hv)
  rw [← List.append_assoc]
  exact pair_of_coords hx hy hd

/-- **A name with an expression in parentheses behind it is a call**, and no pair. -/
theorem pair_call (more : List Token) (h : SideBySide s s' ts us x y) (hcalls : s.Calls s')
    (hbefore : StandsApart before ts) (hd : Delimits d.kind) (hn : (ts ++ us).length ≤ n) :
    coord (n + 1) (run n) (.behind before (ts ++ us ++ d :: more)) none =
        (.ok (.call x [y]) (.behind (before ++ (ts ++ us)) (d :: more)), none) ∧
      Grammar.pair (n + 1) (run n) (.behind before (ts ++ us ++ d :: more)) none =
        (.error ⟨.unexpected .coordinate d.kind, d.position⟩, none) := by
  obtain ⟨rfl, rfl⟩ := hcalls
  obtain ⟨t, ts', rfl, -⟩ := h.left.exists_cons
  have hequal : d.kind ≠ .symbol .equal := ne_of_delimits hd (by decide) (by decide)
  have hread : coord (n + 1) (run n) (.behind before (t :: ts' ++ us ++ d :: more)) none = _ :=
    (h.left.name_group h.right).read hbefore nofun hequal hn
  exact ⟨hread, pair_of_coord hread hd⟩

/-- As an expression, too, it is a call. -/
theorem expression_call (more : List Token) (h : SideBySide s s' ts us x y) (hcalls : s.Calls s')
    (hbefore : StandsApart before ts) (hd : Delimits d.kind) (hn : (ts ++ us).length < n) :
    run n .expression (.behind before (ts ++ us ++ d :: more)) none =
      (.ok (.call x [y]) (.behind (before ++ (ts ++ us)) (d :: more)), none) := by
  obtain ⟨n, rfl⟩ := Nat.exists_eq_succ_of_ne_zero (Nat.ne_zero_of_lt hn)
  have hcoord := (h.pair_call more hcalls hbefore hd (Nat.le_of_lt_succ hn)).1
  obtain ⟨rfl, -⟩ := hcalls
  cases h.left with
  | @name t name hk =>
    have hk : (Cursor.behind before ([t] ++ us ++ d :: more)).kind = .ident name := hk
    refine expression_of_primary (by rw [hk]; simp) (by rw [hk]; simp) ?_ (closes_of_delimits hd)
    rw [primary_of_ident _ none hk, ← coord_of_ident _ none hk]
    exact hcoord

variable {o z t : Token}

/-- **In parentheses of their own** two coordinates are a point. -/
theorem primary (h : SideBySide s s' ts us x y) (ho : o.kind = .symbol .lparen)
    (hz : z.kind = .symbol .rparen) (hn : (ts ++ us).length < n) :
    primary (n + 1) (run n) (.behind before (o :: (ts ++ us ++ z :: t :: more))) none =
      (.ok (if s.Calls s' then .call x [y] else .geometry .point (.point x y) o.position)
        (.behind (before ++ o :: (ts ++ us ++ [z])) (t :: more)), none) := by
  have hbefore : StandsApart (before ++ [o]) ts := standsApart_of_opened before ts (.inl ho)
  have hopen : (Cursor.behind before (o :: (ts ++ us ++ z :: t :: more))).advance =
      .behind (before ++ [o]) (ts ++ us ++ z :: t :: more) := Cursor.advance_behind before (ts ++ us) o z _
  have hclose : (Cursor.behind (before ++ [o] ++ (ts ++ us)) (z :: t :: more)).advance =
      .behind (before ++ o :: (ts ++ us ++ [z])) (t :: more) := by
    rw [Cursor.advance_behind_cons]
    simp
  have hk : (Cursor.behind before (o :: (ts ++ us ++ z :: t :: more))).kind = .symbol .lparen := ho
  rw [primary_of_lparen hk]
  by_cases hcalls : s.Calls s'
  · rw [if_pos hcalls]
    have hpair := (h.pair_call (t :: more) hcalls hbefore (.inr hz) (Nat.le_of_lt hn)).2
    have hread := h.expression_call (t :: more) hcalls hbefore (.inr hz) hn
    rw [← hopen] at hpair hread
    rw [parenthesized_none (tryParenthesizedPair_none hk (tryPair_of_error hpair))]
    exact group_eq_ok_iff.2 ⟨_, hread, hz, hclose.symm⟩
  · rw [if_neg hcalls]
    have hpair := h.pair (t :: more) hcalls hbefore (.inr hz) (Nat.le_of_lt hn)
    rw [← hopen] at hpair
    have htry := tryParenthesizedPair_some hk (tryPair_of_pair hpair (.inr hz)) hz
    rw [parenthesized_some htry, hclose]
    rfl

/-- **In a list of coordinates** two of them are a pair. -/
theorem element (h : SideBySide s s' ts us x y) (hbefore : StandsApart before ts)
    (hd : Delimits d.kind) (hn : (ts ++ us).length < n) :
    element (n + 1) (run n) (.behind before (ts ++ us ++ d :: more)) none =
      (.ok (if s.Calls s' then .value (.call x [y]) else .pair x y)
        (.behind (before ++ (ts ++ us)) (d :: more)), none) := by
  by_cases hcalls : s.Calls s'
  · rw [if_pos hcalls]
    have hpair := (h.pair_call more hcalls hbefore hd (Nat.le_of_lt hn)).2
    exact element_none (tryPair_of_error hpair) (h.expression_call more hcalls hbefore hd hn)
  · rw [if_neg hcalls]
    exact element_some (tryPair_of_pair (h.pair more hcalls hbefore hd (Nat.le_of_lt hn)) hd)

/-- **Behind the name of the shape** they are a point, or there is an error at the parenthesis that
closes it. -/
theorem point {p : Token} (h : SideBySide s s' ts us x y) (hp : p.kind = .geometry .point)
    (ho : o.kind = .symbol .lparen) (hz : z.kind = .symbol .rparen) (hn : (ts ++ us).length ≤ n) :
    Grammar.primary (n + 1) (run n) (.behind before (p :: o :: (ts ++ us ++ z :: t :: more))) none =
      if s.Calls s' then (.error ⟨.unexpected .coordinate (.symbol .rparen), z.position⟩, none)
      else (.ok (.geometry .point (.point x y) p.position)
        (.behind (before ++ p :: o :: (ts ++ us ++ [z])) (t :: more)), none) := by
  have hbefore : StandsApart (before ++ [p] ++ [o]) ts := standsApart_of_opened _ ts (.inl ho)
  have hname : (Cursor.behind before (p :: o :: (ts ++ us ++ z :: t :: more))).advance =
      .behind (before ++ [p]) (o :: (ts ++ us ++ z :: t :: more)) := Cursor.advance_behind_cons ..
  have hopen : (Cursor.behind (before ++ [p]) (o :: (ts ++ us ++ z :: t :: more))).advance =
      .behind (before ++ [p] ++ [o]) (ts ++ us ++ z :: t :: more) :=
    Cursor.advance_behind _ (ts ++ us) o z _
  have hclose : (Cursor.behind (before ++ [p] ++ [o] ++ (ts ++ us)) (z :: t :: more)).advance =
      .behind (before ++ p :: o :: (ts ++ us ++ [z])) (t :: more) := by
    rw [Cursor.advance_behind_cons]
    simp
  have hk : (Cursor.behind before (p :: o :: (ts ++ us ++ z :: t :: more))).kind =
    .geometry .point := hp
  have hk₁ : (Cursor.behind (before ++ [p]) (o :: (ts ++ us ++ z :: t :: more))).kind =
    .symbol .lparen := ho
  rw [primary_of_shape hk (by rw [hname]; exact hk₁), hname]
  by_cases hcalls : s.Calls s'
  · rw [if_pos hcalls]
    have hpair := (h.pair_call (t :: more) hcalls hbefore (.inr hz) hn).2
    rw [← hopen, hz] at hpair
    exact bind_error (body_point_of_error hk₁ hpair)
  · rw [if_neg hcalls]
    have hpair := h.pair (t :: more) hcalls hbefore (.inr hz) hn
    rw [← hopen] at hpair
    rw [bind_eq (body_point_of_pair hk₁ hpair hz), hclose]
    rfl

end SideBySide

end GeoScript
