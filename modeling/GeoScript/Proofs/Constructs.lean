import GeoScript.Proofs.Places
import GeoScript.Proofs.Printing

/-!
# Reading printed constructs

**Reading back.** An expression *reads back* from its marks (`ReadsBack`) if in front of a token
that ends expressions it is read as it was, but for places; if no pair of coordinates can be read
there; and if it does not start like an assignment. The second is what parentheses need: before they
are taken to group, a pair is tried behind them.

**Constructs.** For every way to build an expression, it reads back if its parts do. An operand is
printed in parentheses, and a group is read by every level of the grammar alike
(`ReadsBack.takes_levels`), so that priorities never matter. What remains is the token behind the
group, which belongs to just one level (`BinaryOp.exists_level`), and which no coordinate starts
with.

**Memory.** Only the plain parser is looked at, which remembers nothing.
-/

namespace GeoScript

open Token (Kind)
open TokenReader Grammar

/-! ## The same expressions -/

/-- The same expression, perhaps at other places. -/
abbrev Expr.Same (e a : Expr) : Prop := a.placed (fun _ => .start) = e.placed fun _ => .start

/-- The same entry, perhaps at other places. -/
abbrev Element.Same (e a : Element) : Prop := a.placed (fun _ => .start) = e.placed fun _ => .start

/-- The same body of a shape, perhaps at other places. -/
abbrev Body.Same (b a : Body) : Prop := a.placed (fun _ => .start) = b.placed fun _ => .start

theorem map_eq_of_forall₂ {α β : Type} {f : α → β} {as bs : List α}
    (h : List.Forall₂ (fun a b => f b = f a) as bs) : bs.map f = as.map f := by
  induction h with
  | nil => rfl
  | cons hab _ ih => rw [List.map_cons, List.map_cons, hab, ih]

/-- Nothing is remembered. -/
def NoMemory (m : Memory) : Prop := m = none

/-! ## Kinds of tokens -/

/-- The tokens that stand behind expressions. -/
inductive Stops : Kind → Prop
  | rparen : Stops (.symbol .rparen)
  | comma : Stops (.symbol .comma)
  | semicolon : Stops (.symbol .semicolon)
  | rbrace : Stops (.symbol .rbrace)
  | eof : Stops .eof

/-- The tokens that stand behind sequences. -/
inductive EndsSequence : Kind → Prop
  | rparen : EndsSequence (.symbol .rparen)
  | rbrace : EndsSequence (.symbol .rbrace)
  | eof : EndsSequence .eof

theorem EndsSequence.stops {k : Kind} (h : EndsSequence k) : Stops k := by
  cases h <;> constructor

theorem stops_of_delimits {k : Kind} (h : Delimits k) : Stops k := by
  rcases h with rfl | rfl <;> constructor

theorem Stops.closes {k : Kind} (h : Stops k) : Closes allLevels k := by
  cases h <;> exact ⟨by decide, by decide, by decide⟩

theorem Stops.refusesCoord {k : Kind} (h : Stops k) : k.refusesCoord = true := by
  cases h <;> rfl

theorem Stops.ne_lparen {k : Kind} (h : Stops k) : k ≠ .symbol .lparen := by
  cases h <;> decide

section

variable {good : Memory → Prop} {tokens : List Token} {n k : Nat} {sub : Goal → TokenReader Expr}
  {next : Kind → Prop} {ms ns : List Mark} {e : Expr} {P : Expr → Prop} {R : Expr × Expr → Prop}

/-! ## Pairs -/

theorem takes_tryPair_plain (h : TakesWith NoMemory tokens n (pair k sub) ms Delimits R) :
    TakesWith NoMemory tokens n (tryPair k sub) ms Delimits
      (fun r => ∃ xy, r = some xy ∧ R xy) := by
  intro previous ts u us i m hd hm hu hg hlt
  obtain ⟨r, m', hrun, hg', xy, rfl, hxy⟩ :=
    takes_pairBeforeDelimiter h previous ts u us i m hd hm hu hg hlt
  obtain rfl : m = none := hg
  refine ⟨some xy, m', ?_, hg', xy, rfl, hxy⟩
  rw [tryPair, if_neg (by simp [Memory.isFailed]), attempt, hrun]

theorem declines_tryPair_plain (hf : FailsWith NoMemory tokens n (pair k sub) ms next) :
    DeclinesWith NoMemory tokens n (tryPair k sub) ms next := by
  intro previous ts u us i m hd hm hu hg hlt
  obtain ⟨e, m', hrun, hg'⟩ := hf.bind _ previous ts u us i m hd hm hu hg hlt
  obtain rfl : m = none := hg
  obtain rfl : m' = none := hg'
  refine ⟨none, ?_, rfl⟩
  rw [tryPair, if_neg (by simp [Memory.isFailed]), attempt, pairBeforeDelimiter, hrun]
  rfl

/-- No pair in parentheses is found where no pair is found behind the first one. -/
theorem declines_tryParenthesizedPair {next' : Kind → Prop}
    (hf : FailsWith NoMemory tokens n (pair k sub) ms next') (hn : next' (.symbol .rparen)) :
    DeclinesWith NoMemory tokens n (tryParenthesizedPair k sub) (parens ms) next := by
  refine (takes_accept (.symbol .lparen) false).attempt_declines ?_
  rintro b rfl
  have hclosed : FailsWith NoMemory tokens n (pair k sub) (ms ++ [⟨false, .symbol .rparen⟩]) next :=
    hf.append hn
  exact (declines_tryPair_plain (hclosed.mono (Nat.sub_le _ _))).bind_none rfl

/-- No coordinate starts with a sign that has a parenthesis behind it. -/
theorem fails_coord_sign {s : Symbol} (hs : s ≠ .lparen) (glued : Bool) :
    FailsWith good tokens n (coord k sub)
      (⟨glued, .symbol s⟩ :: ⟨false, .symbol .lparen⟩ :: ms) next := by
  intro previous ts u us i m _ hm _ hg _
  match ts, hm with
  | t :: v :: ts, hm =>
    have hk : (Cursor.mk previous (t :: v :: ts ++ u :: us) i).kind = .symbol s := hm.1.kind
    have hsecond : (t :: v :: ts ++ u :: us)[1]? = some v := rfl
    have hsign : (Cursor.mk previous (t :: v :: ts ++ u :: us) i).atCoordinateSign = false := by
      simp only [Cursor.atCoordinateSign, hsecond, show v.kind = .symbol .lparen from hm.2.1.kind,
        Bool.false_and]
    have hstart : (Cursor.mk previous (t :: v :: ts ++ u :: us) i).startsCoord = false := by
      rw [Cursor.startsCoord, hk]
      cases s <;> simp_all
    exact ⟨_, m, coord_of_not_startsCoord _ m hstart, hg⟩

/-- No pair can be read where one coordinate stands alone. -/
theorem fails_pair_of_coord (hx : TakesWith good tokens n (coord k sub) ms Stops P) :
    FailsWith good tokens n (pair k sub) ms Stops := by
  have h : FailsWith good tokens n (pair k sub) (ms ++ []) Stops :=
    hx.bind_fails (fun _ hk => hk) fun _ _ =>
      (fails_coord fun _ hk => hk.refusesCoord).bind _
  rwa [List.append_nil] at h

/-! ## Groups -/

/-- **An expression reads back**, wherever it stands in front of a token that ends expressions. -/
structure ReadsBack (tokens : List Token) (e : Expr) : Prop where
  takes (n : Nat) : TakesWith NoMemory tokens n (run n .expression) e.marks Stops e.Same
  /-- No pair of coordinates stands there. -/
  fails (n : Nat) : FailsWith NoMemory tokens (n + 1) (pair (n + 1) (run n)) e.marks Stops
  /-- Neither an end nor an assignment stands there. -/
  starts : ∃ k ks, e.marks = ⟨false, k⟩ :: ks ∧ ¬ Stops k ∧
    ∀ name, k = .ident name → Follows (· ≠ .symbol .equal) ks Stops

theorem ReadsBack.takes_group (h : ReadsBack tokens e) :
    TakesWith NoMemory tokens (n + 1) (group (run n)) (parens e.marks) next e.Same := by
  refine (takes_next (.symbol .lparen) false).bind_cons fun _ _ => ?_
  refine (h.takes n).bind Stops.rparen fun a ha => ?_
  exact (takes_expect (.symbol .rparen) false).bind_pure fun _ _ => takes_pure ha

theorem ReadsBack.takes_coord (h : ReadsBack tokens e) :
    TakesWith NoMemory tokens (n + 1) (coord (n + 1) (run n)) (parens e.marks) next e.Same :=
  TakesWith.congr coord_of_lparen h.takes_group

theorem ReadsBack.takes_primary (h : ReadsBack tokens e) :
    TakesWith NoMemory tokens (n + 1) (primary (n + 1) (run n)) (parens e.marks) next e.Same := by
  refine takes_position.bind_nil follows_any fun _ _ => ?_
  refine TakesWith.bind_peek ?_
  refine takes_position.bind_nil follows_any fun _ _ => ?_
  exact (declines_tryParenthesizedPair (h.fails n) .rparen).bind h.takes_group

theorem ReadsBack.takes_unary (h : ReadsBack tokens e)
    (hn : ∀ kind, next kind → kind ≠ .symbol .colon) :
    TakesWith NoMemory tokens (n + 1) (unary (n + 1) (run n)) (parens e.marks) next e.Same :=
  GeoScript.takes_unary (Nat.succ_pos n) h.takes_primary nofun nofun hn

/-- **Every level reads a group**, in front of a token that none of its operators has. -/
theorem ReadsBack.takes_levels (h : ReadsBack tokens e) (ls : List Level) :
    TakesWith NoMemory tokens (n + 1) (levels (n + 1) (run n) ls) (parens e.marks) (Closes ls)
      e.Same := by
  have hpower : TakesWith NoMemory tokens (n + 1) (levels (n + 1) (run n) []) (parens e.marks)
      (Closes ls) e.Same :=
    takes_power (h.takes_unary fun _ hk => hk.colon) fun _ hk => hk.caret
  have hlevels := GeoScript.takes_levels ls (Nat.succ_pos n) hpower fun _ hk => hk.operator
  rwa [List.append_nil] at hlevels

/-- No pair starts with a group that has an operator behind it. -/
theorem ReadsBack.fails_pair (h : ReadsBack tokens e)
    (hf : FailsWith NoMemory tokens (n + 1) (coord (n + 1) (run n)) ns next) :
    FailsWith NoMemory tokens (n + 1) (pair (n + 1) (run n)) (parens e.marks ++ ns) next :=
  h.takes_coord.bind_fails follows_any fun _ _ => (hf.bind _).mono (Nat.sub_le _ _)

/-! ## Operators -/

theorem Closes.mono {ls ls' : List Level} {k : Kind} (h : Closes ls k) (hsub : ls' ⊆ ls) :
    Closes ls' k :=
  ⟨h.colon, h.caret, fun l hl => h.operator l (hsub hl)⟩

/-- **An operator belongs to one level**, and no tighter level has its token. -/
theorem BinaryOp.exists_level {op : BinaryOp} (h : op ≠ .arith .pow) :
    ∃ outer l inner, allLevels = outer ++ l :: inner ∧ l.operator? op.kind = some op ∧
      Closes inner op.kind := by
  match op with
  | .logic .or => exact ⟨[], .or, _, rfl, rfl, by decide, by decide, by decide⟩
  | .logic .and => exact ⟨[.or], .and, _, rfl, rfl, by decide, by decide, by decide⟩
  | .equality negated =>
    cases negated <;> exact ⟨[.or, .and], .equality, _, rfl, rfl, by decide, by decide, by decide⟩
  | .compare op =>
    cases op <;>
      exact ⟨[.or, .and, .equality], .comparison, _, rfl, rfl, by decide, by decide, by decide⟩
  | .concat =>
    exact ⟨[.or, .and, .equality, .comparison], .pipeline, _, rfl, rfl, by decide, by decide,
      by decide⟩
  | .pipe kind =>
    cases kind <;>
      exact ⟨[.or, .and, .equality, .comparison], .pipeline, _, rfl, rfl, by decide, by decide,
        by decide⟩
  | .arith .pow => exact absurd rfl h
  | .arith .add | .arith .sub =>
    exact ⟨[.or, .and, .equality, .comparison, .pipeline], .additive, _, rfl, rfl, by decide,
      by decide, by decide⟩
  | .arith .mul | .arith .div | .arith .mod =>
    exact ⟨[.or, .and, .equality, .comparison, .pipeline, .additive], .multiplicative, _, rfl, rfl,
      by decide, by decide, by decide⟩

theorem BinaryOp.kind_cases (op : BinaryOp) :
    (∃ w, op.kind = .word w) ∨ ∃ s, op.kind = .symbol s ∧ s ≠ .lparen := by
  match op with
  | .logic .or | .logic .and => exact .inl ⟨_, rfl⟩
  | .concat => exact .inr ⟨_, rfl, nofun⟩
  | .equality negated => cases negated <;> exact .inr ⟨_, rfl, nofun⟩
  | .compare op => cases op <;> exact .inr ⟨_, rfl, nofun⟩
  | .pipe kind => cases kind <;> exact .inr ⟨_, rfl, nofun⟩
  | .arith op => cases op <;> exact .inr ⟨_, rfl, nofun⟩

/-- No coordinate starts with an operator that has a group behind it. -/
theorem BinaryOp.fails_coord (op : BinaryOp) :
    FailsWith good tokens n (coord k sub) (⟨false, op.kind⟩ :: parens ms) next := by
  rcases op.kind_cases with ⟨w, hw⟩ | ⟨s, hs, hne⟩
  · rw [hw]
    exact GeoScript.fails_coord rfl
  · rw [hs]
    exact fails_coord_sign hne false

section

variable {left right : Expr} {op : BinaryOp}

theorem takes_operation {l : Level} {inner : List Level} (hleft : ReadsBack tokens left)
    (hright : ReadsBack tokens right) (hop : l.operator? op.kind = some op)
    (hcloses : Closes inner op.kind) :
    TakesWith NoMemory tokens (n + 1) (levels (n + 1) (run n) (l :: inner))
      (parens left.marks ++ ⟨false, op.kind⟩ :: parens right.marks) (Closes (l :: inner))
      (Expr.binary op left right).Same := by
  refine (hleft.takes_levels inner).bind hcloses fun a ha => ?_
  refine TakesWith.bind_peek ?_
  rw [hop]
  refine (takes_next op.kind false).bind_cons fun _ _ => ?_
  -- A token is left, so that the level is unrolled once more to find its end.
  refine takes_of_pos fun hpos => ?_
  have hoperand : TakesWith NoMemory tokens (n + 1) (levels (n + 1) (run n) inner)
      (parens right.marks) (Closes (l :: inner)) right.Same :=
    (hright.takes_levels inner).before fun _ hk => hk.mono (List.subset_cons_self _ _)
  refine (hoperand.mono (by omega)).bind_pure fun b hb => ?_
  refine takes_operations_none (by omega) (fun _ hk => hk.operator l List.mem_cons_self) ?_
  simp only [Expr.Same, Expr.placed, ha, hb]

theorem takes_pow (hleft : ReadsBack tokens left) (hright : ReadsBack tokens right) :
    TakesWith NoMemory tokens (n + 1) (power (n + 1) (run n))
      (parens left.marks ++ ⟨false, .symbol .caret⟩ :: parens right.marks) (Closes [])
      (Expr.binary (.arith .pow) left right).Same := by
  have hbase : TakesWith NoMemory tokens (n + 1) (unary (n + 1) (run n)) (parens left.marks)
      (· ≠ .symbol .colon) left.Same :=
    hleft.takes_unary fun _ hk => hk
  refine hbase.bind nofun fun a ha => ?_
  refine (takes_accept (.symbol .caret) false).bind_cons ?_
  rintro b rfl
  have hpower : TakesWith NoMemory tokens n (run n .power) (parens right.marks) (Closes [])
      right.Same :=
    takes_run (fun n => hright.takes_levels []) n
  refine (hpower.mono (by omega)).bind_pure fun b hb => takes_pure ?_
  simp only [Expr.Same, Expr.placed, ha, hb]

/-- **Operators read back**, whatever their level. -/
theorem readsBack_binary (hleft : ReadsBack tokens left) (hright : ReadsBack tokens right)
    (op : BinaryOp) : ReadsBack tokens (.binary op left right) := by
  refine ⟨fun n => takes_run (fun n => ?_) n, fun n => ?_, ?_⟩ <;> rw [Expr.marks]
  · by_cases hop : op = .arith .pow
    · -- Powers group to the right, below all levels.
      subst hop
      have hpow : TakesWith NoMemory tokens (n + 1) (levels (n + 1) (run n) [])
          (parens left.marks ++ ⟨false, .symbol .caret⟩ :: parens right.marks) Stops
          (Expr.binary (.arith .pow) left right).Same :=
        (takes_pow hleft hright).before fun _ hk => hk.closes.mono (List.nil_subset _)
      exact takes_levels allLevels (Nat.succ_pos n) hpow fun _ hk => hk.closes.operator
    · obtain ⟨outer, l, inner, hlevels, hoperator, hcloses⟩ := op.exists_level hop
      have hexpression : goal (n + 1) (run n) .expression =
          levels (n + 1) (run n) (outer ++ l :: inner) := by
        rw [← hlevels]
        rfl
      rw [hexpression]
      have hstops : ∀ kind, Stops kind → Closes (outer ++ l :: inner) kind := by
        rw [← hlevels]
        exact fun _ hk => hk.closes
      refine takes_levels outer (Nat.succ_pos n) ?_ fun kind hk m hm =>
        (hstops kind hk).operator m (List.mem_append_left _ hm)
      exact (takes_operation hleft hright hoperator hcloses).before fun kind hk =>
        (hstops kind hk).mono (List.subset_append_right _ _)
  · exact hleft.fails_pair op.fails_coord
  · exact ⟨_, _, rfl, nofun, nofun⟩

end

/-! ## Numbers and signs -/

/-- **A number reads back** if it has no sign. -/
theorem readsBack_number {x : Float} (hx : x.isFinite = true) (hsign : Decimal.isSigned x = false)
    (p : Position) : ReadsBack tokens (.number x p) := by
  have habs : x.abs = x := by
    have h := Decimal.signed_abs hx
    rwa [hsign] at h
  have hmarks : numberMarks x = [⟨false, .number x⟩] := by simp [numberMarks, hsign, habs]
  refine ⟨fun n => takes_run (fun n => ?_) n, fun n => ?_, ?_⟩ <;> rw [Expr.marks]
  · rw [hmarks]
    refine takes_expression ?_ (by simp [Follows]) (by simp [Follows]) fun _ hk => hk.closes
    refine takes_position.bind_nil follows_any fun _ _ => ?_
    refine TakesWith.bind_peek ?_
    refine (takes_next (.number x) false).bind_pure fun _ _ => takes_pure ?_
    simp only [Expr.Same, Expr.placed]
  · exact fails_pair_of_coord (takes_coord_number hx)
  · refine ⟨_, _, hmarks, fun hk => ?_, by simp⟩
    cases hk

theorem ReadsBack.takes_run_unary (h : ReadsBack tokens e) :
    TakesWith NoMemory tokens n (run n .unary) (parens e.marks) Stops e.Same :=
  takes_run (fun _ => h.takes_unary fun _ hk => hk.closes.colon) n

theorem readsBack_neg (h : ReadsBack tokens e) (p : Position) : ReadsBack tokens (.neg e p) := by
  refine ⟨fun n => takes_run (fun n => ?_) n, fun n => ?_, ?_⟩ <;> rw [Expr.marks]
  · refine takes_expression_of_unary ?_ fun _ hk => hk.closes
    refine takes_position.bind_nil follows_any fun _ _ => ?_
    refine (takes_accept (.symbol .minus) false).bind_cons ?_
    rintro b rfl
    refine h.takes_run_unary.bind_pure fun a ha => takes_pure ?_
    simp only [Expr.Same, Expr.placed, ha]
  · exact (fails_coord_sign (s := .minus) nofun false).bind _
  · exact ⟨_, _, rfl, nofun, nofun⟩

theorem readsBack_not (h : ReadsBack tokens e) (p : Position) : ReadsBack tokens (.not e p) := by
  refine ⟨fun n => takes_run (fun n => ?_) n, fun n => ?_, ?_⟩ <;> rw [Expr.marks]
  · refine takes_expression_of_unary ?_ fun _ hk => hk.closes
    refine takes_position.bind_nil follows_any fun _ _ => ?_
    refine (takes_accept_none (.symbol .minus)).bind_nil nofun ?_
    rintro b rfl
    refine (takes_accept (.symbol .bang) false).bind_cons ?_
    rintro b rfl
    refine h.takes_run_unary.bind_pure fun a ha => takes_pure ?_
    simp only [Expr.Same, Expr.placed, ha]
  · exact (fails_coord_sign (s := .bang) nofun false).bind _
  · exact ⟨_, _, rfl, nofun, nofun⟩

/-! ## Calls and accessors -/

section

variable {args : List Expr}

theorem ReadsBack.marks_cons (h : ReadsBack tokens e) :
    ∃ k ks, e.marks = k :: ks ∧ k.kind ≠ .symbol .rparen := by
  obtain ⟨k, ks, hmarks, hk, -⟩ := h.starts
  refine ⟨_, ks, hmarks, ?_⟩
  rintro rfl
  exact hk .rparen

theorem takes_arguments (hargs : ∀ a ∈ args, ReadsBack tokens a) :
    TakesWith NoMemory tokens n (arguments (n + 1) (run n)) (commaList (args.map Expr.marks)) next
      (List.Forall₂ Expr.Same args) :=
  takes_listOrNone (fun a ha => ((hargs a ha).takes n).before fun _ => stops_of_delimits)
    (fun a ha => (hargs a ha).marks_cons) (Nat.le_succ n) false

theorem takes_callTail_none {callee : Expr} (h : P callee)
    (hn : ∀ kind, next kind → kind ≠ .symbol .lparen) :
    TakesWith good tokens n (callTail k sub callee) [] next P := by
  refine takes_peekKind.bind_nil (fun _ hk => hk) fun kind hkind => ?_
  rw [if_neg (by simpa using hn kind hkind)]
  exact takes_pure h

theorem takes_callTail {callee f : Expr} (hf : callee.Same f)
    (hargs : ∀ a ∈ args, ReadsBack tokens a) :
    TakesWith NoMemory tokens n (callTail (n + 1) (run n) f) (commaList (args.map Expr.marks)) next
      (Expr.call callee args).Same := by
  refine TakesWith.bind_peek ?_
  rw [if_pos (beq_self_eq_true _)]
  refine (takes_arguments hargs).bind_pure fun as has => takes_pure ?_
  simp only [Expr.Same, Expr.placed, Expr.placedAll_eq, hf, map_eq_of_forall₂ has]

/-- What is read from an identifier on, as a coordinate and as an expression. -/
def named (k : Nat) (sub : Goal → TokenReader Expr) (name : String) : TokenReader Expr := do
  let p ← position
  let _ ← TokenReader.next
  callTail k sub (.ident name p)

theorem coord_of_ident {name : String} (c : Cursor) (m : Memory) (hk : c.kind = .ident name) :
    coord k sub c m = named k sub name c m := by
  rw [coord, bind_eq (show here c m = (.ok c c, m) from rfl)]
  simp only [hk]
  rfl

theorem primary_of_ident {name : String} (c : Cursor) (m : Memory) (hk : c.kind = .ident name) :
    primary k sub c m = named k sub name c m := by
  rw [primary, bind_eq (show position c m = (.ok c.token.position c, m) from rfl),
    bind_eq (show peekKind c m = (.ok c.kind c, m) from rfl)]
  simp only [hk]
  rfl

/-- **An identifier reads back**, alone or with arguments. -/
theorem readsBack_named {name : String} (hmarks : e.marks = ⟨false, .ident name⟩ :: ms)
    (htail : ∀ n p, TakesWith NoMemory tokens n (callTail (n + 1) (run n) (.ident name p)) ms Stops
      e.Same)
    (hequal : Follows (· ≠ .symbol .equal) ms Stops) : ReadsBack tokens e := by
  have hnamed : ∀ n, TakesWith NoMemory tokens (n + 1) (named (n + 1) (run n) name)
      (⟨false, .ident name⟩ :: ms) Stops e.Same := by
    intro n
    refine takes_position.bind_nil follows_any fun p _ => ?_
    exact (takes_next (.ident name) false).bind_cons fun _ _ => htail n p
  refine ⟨fun n => takes_run (fun n => ?_) n, fun n => ?_, ?_⟩ <;> rw [hmarks]
  · exact takes_expression (TakesWith.congr primary_of_ident (hnamed n)) nofun nofun
      fun _ hk => hk.closes
  · exact fails_pair_of_coord (TakesWith.congr coord_of_ident (hnamed n))
  · exact ⟨_, _, rfl, nofun, fun _ _ => hequal⟩

theorem readsBack_ident (name : String) (p : Position) : ReadsBack tokens (.ident name p) := by
  refine readsBack_named (by rw [Expr.marks]; rfl) (fun n q => ?_) ?_
  · exact takes_callTail_none (by simp only [Expr.Same, Expr.placed]) fun _ hk => hk.ne_lparen
  · rintro kind hk rfl
    cases hk

theorem readsBack_callIdent (name : String) (p : Position)
    (hargs : ∀ a ∈ args, ReadsBack tokens a) : ReadsBack tokens (.call (.ident name p) args) := by
  refine readsBack_named (by rw [Expr.marks, Expr.marks, Expr.marksAll_eq]; rfl) (fun n q => ?_) ?_
  · exact takes_callTail (by simp only [Expr.Same, Expr.placed]) hargs
  · simp [commaList, Follows]

theorem readsBack_access (htarget : ReadsBack tokens e) (property : String)
    (hargs : ∀ a ∈ args, ReadsBack tokens a) : ReadsBack tokens (.access e property args) := by
  refine ⟨fun n => takes_run (fun n => ?_) n, fun n => ?_, ?_⟩ <;>
    rw [Expr.marks, Expr.marksAll_eq]
  · refine takes_expression_of_unary ?_ fun _ hk => hk.closes
    refine takes_position.bind_nil follows_any fun _ _ => ?_
    refine (takes_accept_none (.symbol .minus)).bind_nil nofun ?_
    rintro b rfl
    refine (takes_accept_none (.symbol .bang)).bind_nil nofun ?_
    rintro b rfl
    refine htarget.takes_primary.bind follows_any fun a ha => ?_
    refine (takes_accept (.symbol .colon) false).bind_cons ?_
    rintro b rfl
    refine (takes_ident property false).bind_cons ?_
    rintro _ rfl
    refine takes_of_pos fun hpos => ?_
    refine ((takes_arguments hargs).mono (by omega)).bind_pure fun as has => ?_
    obtain ⟨n, rfl⟩ := Nat.exists_eq_succ_of_ne_zero (n := n) (by omega)
    refine (takes_accept_none (.symbol .colon)).bind_nil (fun _ hk => hk.closes.colon) ?_
    rintro b rfl
    refine takes_pure ?_
    simp only [Expr.Same, Expr.placed, Expr.placedAll_eq, ha, map_eq_of_forall₂ has]
  · exact htarget.fails_pair (fails_coord rfl)
  · exact ⟨_, _, rfl, nofun, nofun⟩

end

/-! ## Words -/

/-- The tokens that expressions start with, but coordinates do not. -/
inductive Announces : Kind → Prop
  | bool (b : Bool) : Announces (.bool b)
  | geometry (kind : Geometry.Kind) : Announces (.geometry kind)
  | word (w : Word) : Announces (.word w)

theorem readsBack_of_announces {kind : Kind} (hkind : Announces kind)
    (hmarks : e.marks = ⟨false, kind⟩ :: ms)
    (hprimary : ∀ n, TakesWith NoMemory tokens (n + 1) (primary (n + 1) (run n))
      (⟨false, kind⟩ :: ms) Stops e.Same) : ReadsBack tokens e := by
  refine ⟨fun n => takes_run (fun n => ?_) n, fun n => ?_, ?_⟩ <;> rw [hmarks]
  · exact takes_expression (hprimary n) (by cases hkind <;> nofun) (by cases hkind <;> nofun)
      fun _ hk => hk.closes
  · exact (fails_coord (by cases hkind <;> rfl)).bind _
  · exact ⟨_, _, rfl, by cases hkind <;> nofun, by rintro name rfl; cases hkind⟩

theorem readsBack_bool (b : Bool) (p : Position) : ReadsBack tokens (.bool b p) := by
  refine readsBack_of_announces (.bool b) (by rw [Expr.marks]) fun n => ?_
  refine takes_position.bind_nil follows_any fun _ _ => ?_
  refine TakesWith.bind_peek ?_
  refine (takes_next (.bool b) false).bind_pure fun _ _ => takes_pure ?_
  simp only [Expr.Same, Expr.placed]

theorem readsBack_generate {count body : Expr} (hcount : ReadsBack tokens count)
    (hbody : ReadsBack tokens body) (p : Position) :
    ReadsBack tokens (.generate count body p) := by
  have hadditive : ∀ {e : Expr} (n : Nat), ReadsBack tokens e → TakesWith NoMemory tokens n
      (run n .additive) (parens e.marks) (Closes [.additive, .multiplicative]) e.Same :=
    fun n h => takes_run (fun _ => h.takes_levels _) n
  refine readsBack_of_announces (.word .generate) (by rw [Expr.marks]) fun n => ?_
  refine takes_position.bind_nil follows_any fun _ _ => ?_
  refine TakesWith.bind_peek ?_
  refine takes_position.bind_nil follows_any fun _ _ => ?_
  refine (takes_expect (.word .generate) false).bind_cons fun _ _ => ?_
  refine (hadditive n hcount).bind ⟨by decide, by decide, by decide⟩ fun a ha => ?_
  have hrest : TakesWith NoMemory tokens n (run n .additive) (parens body.marks) Stops body.Same :=
    (hadditive n hbody).before fun _ hk => hk.closes.mono (by decide)
  refine (hrest.mono (Nat.sub_le _ _)).bind_pure fun b hb => takes_pure ?_
  simp only [Expr.Same, Expr.placed, ha, hb]

end

end GeoScript
