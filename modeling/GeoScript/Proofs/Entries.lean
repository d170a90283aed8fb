import GeoScript.Command
import Mathlib.Data.List.DropRight
import Mathlib.Data.List.Forall2

/-!
# Entries of an interactive session

**The input as a whole.** All lines read so far, each with its end, are one text. The marks `;;` cut
it into segments, from left to right and without overlap (`segments`). The session has to hand over
these segments in order, but it cannot do so at once: each line read lets it hand over one segment at
most (`handedOver`).

**The invariant (`Follows`).** What is pending is the rest of the text behind the segments that were
handed over, but for blanks in front. Blanks in front neither hide a mark nor make one, so whatever
is cut off the pending text is cut off the rest (`splitAtMark?_of_trimStart`), and a mark that was
found stays where it is when lines are added (`segments_append`).

**Theorem (`session_follows`).** A session prompts, evaluates and ends as the segments of its input
say, whatever the evaluations give.
-/

namespace GeoScript

/-! ## Blanks in front -/

namespace Text

variable {a b : List Char}

theorem trimStart_append_of_isAllBlank (ha : isAllBlank a = true) (cs : List Char) :
    trimStart (a ++ cs) = trimStart cs := by
  rw [trimStart, List.dropWhile_append_of_pos (List.all_eq_true.1 ha)]
  rfl

@[simp] theorem trimStart_trimStart (a : List Char) : trimStart (trimStart a) = trimStart a :=
  List.dropWhile_idempotent isBlank a

theorem isAllBlank_iff : isAllBlank a = true ↔ trimStart a = [] := by
  rw [isAllBlank, List.all_eq_true, trimStart, List.dropWhile_eq_nil_iff]

/-- A text is the blanks in front of it and what is left without them. -/
theorem exists_blanks (a : List Char) : ∃ blanks, isAllBlank blanks = true ∧
    a = blanks ++ trimStart a :=
  ⟨a.takeWhile isBlank, List.all_takeWhile, List.takeWhile_append_dropWhile.symm⟩

/-- Texts that differ by blanks in front do so too with more behind them. -/
theorem trimStart_append_congr (h : trimStart a = trimStart b) (cs : List Char) :
    trimStart (a ++ cs) = trimStart (b ++ cs) := by
  obtain ⟨blanks, hblanks, ha⟩ := exists_blanks a
  obtain ⟨blanks', hblanks', hb⟩ := exists_blanks b
  rw [ha, hb, List.append_assoc, List.append_assoc, trimStart_append_of_isAllBlank hblanks,
    trimStart_append_of_isAllBlank hblanks', h]

end Text

namespace Repl

open Text

/-! ## Segments -/

/-- The parts of a text between its marks `;;`, taken from the left and without overlap. -/
def segments : List Char → List (List Char)
  | [] => [[]]
  | ';' :: ';' :: rest => [] :: segments rest
  | c :: cs => (segments cs).modifyHead (c :: ·)

/-- How many marks there are. -/
def marks (text : List Char) : Nat := (segments text).length - 1

/-- What stands behind so many marks. -/
def restAfter (n : Nat) (text : List Char) : List Char :=
  [';', ';'].intercalate ((segments text).drop n)

theorem segments_ne_nil (text : List Char) : segments text ≠ [] := by
  fun_induction segments text with
  | case1 => exact List.cons_ne_nil _ _
  | case2 rest => exact List.cons_ne_nil _ _
  | case3 c cs hmark ih =>
    intro h
    exact ih (List.modifyHead_eq_nil_iff.1 h)

theorem length_segments (text : List Char) : (segments text).length = marks text + 1 := by
  have hpos : 0 < (segments text).length := List.length_pos_iff.2 (segments_ne_nil text)
  rw [marks]
  omega

theorem segments_of_none {text : List Char} (h : splitAtMark? text = none) :
    segments text = [text] := by
  fun_induction segments text with
  | case1 => rfl
  | case2 rest => cases h
  | case3 c cs hmark ih =>
    rw [splitAtMark?.eq_3 c cs hmark, Option.map_eq_none_iff] at h
    rw [ih h]
    rfl

theorem segments_of_some {text entry rest : List Char}
    (h : splitAtMark? text = some (entry, rest)) : segments text = entry :: segments rest := by
  fun_induction segments text generalizing entry with
  | case1 => cases h
  | case2 rest' =>
    obtain ⟨rfl, rfl⟩ := Prod.mk.inj (Option.some.inj h)
    rfl
  | case3 c cs hmark ih =>
    rw [splitAtMark?.eq_3 c cs hmark] at h
    obtain ⟨⟨entry', rest'⟩, hsplit, heq⟩ := Option.map_eq_some_iff.1 h
    obtain ⟨rfl, rfl⟩ := Prod.mk.inj heq
    rw [ih hsplit]
    rfl

theorem marks_of_none {text : List Char} (h : splitAtMark? text = none) : marks text = 0 := by
  rw [marks, segments_of_none h]
  rfl

theorem marks_of_some {text entry rest : List Char}
    (h : splitAtMark? text = some (entry, rest)) : marks text = marks rest + 1 := by
  rw [marks, segments_of_some h, List.length_cons, length_segments]
  rfl

theorem exists_split_of_marks {text : List Char} (h : 0 < marks text) :
    ∃ entry rest, splitAtMark? text = some (entry, rest) := by
  cases hsplit : splitAtMark? text with
  | none =>
    rw [marks_of_none hsplit] at h
    exact absurd h (Nat.lt_irrefl 0)
  | some parts => exact ⟨parts.1, parts.2, rfl⟩

/-- A text is its segments with the marks between them. -/
theorem intercalate_segments (text : List Char) : [';', ';'].intercalate (segments text) = text := by
  fun_induction segments text with
  | case1 => rfl
  | case2 rest ih =>
    obtain ⟨s, ss, hs⟩ := List.exists_cons_of_ne_nil (segments_ne_nil rest)
    rw [hs] at ih ⊢
    rw [List.intercalate_cons_cons, ih]
    rfl
  | case3 c cs hmark ih =>
    obtain ⟨s, ss, hs⟩ := List.exists_cons_of_ne_nil (segments_ne_nil cs)
    rw [hs] at ih ⊢
    cases ss with
    | nil => simpa using ih
    | cons s' ss =>
      rw [List.modifyHead_cons, List.intercalate_cons_cons] at *
      rw [← ih]
      rfl

/-! ## More text -/

/-- A mark that was found stays where it is. -/
theorem splitAtMark?_append {text entry rest : List Char}
    (h : splitAtMark? text = some (entry, rest)) (more : List Char) :
    splitAtMark? (text ++ more) = some (entry, rest ++ more) := by
  fun_induction splitAtMark? text generalizing entry with
  | case1 => cases h
  | case2 rest' =>
    obtain ⟨rfl, rfl⟩ := Prod.mk.inj (Option.some.inj h)
    rfl
  | case3 c cs hmark ih =>
    obtain ⟨⟨entry', rest'⟩, hsplit, heq⟩ := Option.map_eq_some_iff.1 h
    obtain ⟨rfl, rfl⟩ := Prod.mk.inj heq
    have hmark' : ∀ tail, c = ';' → cs ++ more = ';' :: tail → False := by
      intro tail hc htail
      cases cs with
      | nil => cases hsplit
      | cons d ds => exact hmark ds hc (by rw [(List.cons.inj htail).1])
    rw [List.cons_append, splitAtMark?.eq_3 c _ hmark', ih hsplit]
    rfl

/-- The segments that were handed over stay as they are; the others are those of the rest. -/
theorem segments_append {text : List Char} {n : Nat} (hn : n ≤ marks text) (more : List Char) :
    segments (text ++ more) = (segments text).take n ++ segments (restAfter n text ++ more) := by
  induction n generalizing text with
  | zero =>
    rw [restAfter, List.drop_zero, intercalate_segments]
    rfl
  | succ n ih =>
    obtain ⟨entry, rest, hsplit⟩ := exists_split_of_marks (Nat.lt_of_lt_of_le n.succ_pos hn)
    have hsegments := segments_of_some hsplit
    have hle : n ≤ marks rest := by
      rw [marks_of_some hsplit] at hn
      exact Nat.le_of_succ_le_succ hn
    rw [segments_of_some (splitAtMark?_append hsplit more), ih hle, restAfter, restAfter, hsegments]
    rfl

theorem drop_segments_append {text : List Char} {n : Nat} (hn : n ≤ marks text) (more : List Char) :
    (segments (text ++ more)).drop n = segments (restAfter n text ++ more) := by
  have hlength : ((segments text).take n).length = n := by
    rw [List.length_take, length_segments]
    omega
  rw [segments_append hn more, List.drop_left' hlength]

theorem restAfter_append {text : List Char} {n : Nat} (hn : n ≤ marks text) (more : List Char) :
    restAfter n (text ++ more) = restAfter n text ++ more := by
  rw [restAfter, drop_segments_append hn more, intercalate_segments]

theorem marks_append {text : List Char} {n : Nat} (hn : n ≤ marks text) (more : List Char) :
    marks (text ++ more) = n + marks (restAfter n text ++ more) := by
  have h := congrArg List.length (drop_segments_append hn more)
  have hlength := congrArg List.length (segments_append hn more)
  rw [List.length_append, List.length_take, length_segments, length_segments, length_segments]
    at hlength
  omega

theorem take_segments_append {text : List Char} {n : Nat} (hn : n ≤ marks text)
    (more : List Char) : (segments (text ++ more)).take n = (segments text).take n := by
  have hlength : ((segments text).take n).length = n := by
    rw [List.length_take, length_segments]
    omega
  rw [segments_append hn more, List.take_left' hlength]

/-- Blanks in front stay in front of the first mark. -/
theorem splitAtMark?_blanks_append {blanks : List Char} (hblanks : isAllBlank blanks = true)
    (text : List Char) : splitAtMark? (blanks ++ text) =
      (splitAtMark? text).map fun (entry, rest) => (blanks ++ entry, rest) := by
  induction blanks with
  | nil => simp
  | cons c cs ih =>
    have hc : isBlank c = true ∧ isAllBlank cs = true := by
      simpa [isAllBlank] using hblanks
    have hmark : ∀ tail, c = ';' → cs ++ text = ';' :: tail → False := by
      intro tail heq _
      rw [heq] at hc
      exact absurd hc.1 (by decide)
    rw [List.cons_append, splitAtMark?.eq_3 c _ hmark, ih hc.2, Option.map_map]
    rfl

/-- Texts that differ by blanks in front are cut at the same mark. -/
theorem splitAtMark?_of_trimStart {a b entry rest : List Char} (h : trimStart a = trimStart b)
    (ha : splitAtMark? a = some (entry, rest)) :
    ∃ entry', splitAtMark? b = some (entry', rest) ∧ trimStart entry = trimStart entry' := by
  obtain ⟨blanks, hblanks, heq⟩ := exists_blanks a
  obtain ⟨blanks', hblanks', heq'⟩ := exists_blanks b
  rw [heq, splitAtMark?_blanks_append hblanks] at ha
  obtain ⟨⟨core, rest'⟩, hcore, hparts⟩ := Option.map_eq_some_iff.1 ha
  obtain ⟨rfl, rfl⟩ := Prod.mk.inj hparts
  refine ⟨blanks' ++ core, ?_, ?_⟩
  · rw [heq', splitAtMark?_blanks_append hblanks', ← h, hcore]
    rfl
  · rw [trimStart_append_of_isAllBlank hblanks, trimStart_append_of_isAllBlank hblanks']

/-! ## The input -/

/-- The text of the first so many lines, each with its end. -/
def textOf (lines : List String) (k : Nat) : List Char :=
  (lines.take k).flatMap fun line => line.toList ++ ['\n']

/-- How many segments are handed over by the first so many lines: one more with each line, as far as
there are marks. -/
def handedOver (lines : List String) : Nat → Nat
  | 0 => 0
  | k + 1 => min (handedOver lines k + 1) (marks (textOf lines (k + 1)))

/-- What is behind the segments that were handed over. -/
def restOf (lines : List String) (k : Nat) : List Char :=
  restAfter (handedOver lines k) (textOf lines k)

/-- The segment that the line behind the first so many hands over. -/
def due? (lines : List String) (k : Nat) : Option (List Char) :=
  if handedOver lines k < handedOver lines (k + 1) then
    (segments (textOf lines (k + 1)))[handedOver lines k]?
  else none

variable {lines : List String} {k : Nat}

theorem textOf_succ (lines : List String) (k : Nat) :
    ∃ more, textOf lines (k + 1) = textOf lines k ++ more := by
  rw [textOf, List.take_add_one, List.flatMap_append]
  exact ⟨_, rfl⟩

theorem textOf_succ_of_getElem? {line : String} (h : lines[k]? = some line) :
    textOf lines (k + 1) = textOf lines k ++ (line.toList ++ ['\n']) := by
  rw [textOf, List.take_add_one, List.flatMap_append, h, Option.toList_some, List.flatMap_singleton]
  rfl

theorem handedOver_le_marks (lines : List String) (k : Nat) :
    handedOver lines k ≤ marks (textOf lines k) := by
  cases k with
  | zero => exact Nat.zero_le _
  | succ k => exact Nat.min_le_right _ _

/-- Each line hands over the first segment of the rest if a mark ends it, and nothing otherwise. -/
theorem due?_cases {more : List Char} (hmore : textOf lines (k + 1) = textOf lines k ++ more) :
    (splitAtMark? (restOf lines k ++ more) = none ∧ due? lines k = none ∧
      handedOver lines (k + 1) = handedOver lines k ∧
      restOf lines (k + 1) = restOf lines k ++ more) ∨
    ∃ s, splitAtMark? (restOf lines k ++ more) = some (s, restOf lines (k + 1)) ∧
      due? lines k = some s ∧ handedOver lines (k + 1) = handedOver lines k + 1 := by
  have hle := handedOver_le_marks lines k
  have hmarks := marks_append hle more
  have hdrop := drop_segments_append hle more
  rw [← hmore] at hmarks hdrop
  change marks _ = _ + marks (restOf lines k ++ more) at hmarks
  change _ = segments (restOf lines k ++ more) at hdrop
  cases hsplit : splitAtMark? (restOf lines k ++ more) with
  | none =>
    have hsucc : handedOver lines (k + 1) = handedOver lines k := by
      rw [handedOver, hmarks, marks_of_none hsplit]
      exact Nat.min_eq_right (Nat.le_succ _)
    refine Or.inl ⟨rfl, ?_, hsucc, ?_⟩
    · rw [due?, hsucc, if_neg (Nat.lt_irrefl _)]
    · rw [restOf, hsucc, hmore, restAfter_append hle]
      rfl
  | some parts =>
    obtain ⟨s, rest⟩ := parts
    have hsegments := segments_of_some hsplit
    have hsucc : handedOver lines (k + 1) = handedOver lines k + 1 := by
      rw [handedOver, hmarks, marks_of_some hsplit]
      exact Nat.min_eq_left (by omega)
    have hrest : restOf lines (k + 1) = rest := by
      rw [restOf, hsucc, restAfter, ← List.drop_drop, hdrop, hsegments, List.drop_one,
        List.tail_cons, intercalate_segments]
    refine Or.inr ⟨s, by rw [hrest], ?_, hsucc⟩
    rw [due?, hsucc, if_pos (Nat.lt_succ_self _), ← List.head?_drop, hdrop, hsegments]
    rfl

/-- The segments handed over by one line more. -/
theorem take_handedOver_succ (lines : List String) (k : Nat) :
    (segments (textOf lines (k + 1))).take (handedOver lines (k + 1)) =
      (segments (textOf lines k)).take (handedOver lines k) ++ (due? lines k).toList := by
  obtain ⟨more, hmore⟩ := textOf_succ lines k
  have htake := take_segments_append (handedOver_le_marks lines k) more
  rw [← hmore] at htake
  rcases due?_cases hmore with ⟨-, hdue, hsucc, -⟩ | ⟨s, -, hdue, hsucc⟩
  · rw [hdue, hsucc, htake, Option.toList_none, List.append_nil]
  · have hs : (segments (textOf lines (k + 1)))[handedOver lines k]? = some s := by
      rw [due?, hsucc, if_pos (Nat.lt_succ_self _)] at hdue
      exact hdue
    rw [hdue, hsucc, List.take_add_one, htake, hs]

/-! ## One line -/

theorem feed_of_none {r : Repl} {line : List Char}
    (h : splitAtMark? (r.pending ++ (line ++ ['\n'])) = none) :
    r.feed line = (.wait, { r with pending := r.pending ++ (line ++ ['\n']) }) := by
  rw [feed, List.append_assoc, h]

theorem feed_of_some {r : Repl} {line entry rest : List Char}
    (h : splitAtMark? (r.pending ++ (line ++ ['\n'])) = some (entry, rest)) :
    r.feed line = if trim entry = "exit()".toList then (.exit, { r with pending := trimStart rest })
      else (.evaluate (String.ofList entry), ⟨trimStart rest, r.entry + 1⟩) := by
  rw [feed, List.append_assoc, h]

/-- What is pending is what is left of the input, but for blanks in front. -/
structure Follows (lines : List String) (k : Nat) (r : Repl) : Prop where
  pending : trimStart r.pending = trimStart (restOf lines k)
  entry : r.entry = handedOver lines k + 1

theorem follows_start (lines : List String) : Follows lines 0 start :=
  ⟨rfl, rfl⟩

theorem Follows.promptDue {r : Repl} (h : Follows lines k r) :
    r.promptDue = isAllBlank (restOf lines k) := by
  rw [Repl.promptDue, Bool.eq_iff_iff, isAllBlank_iff, isAllBlank_iff, h.pending]

/-- A line leads to what the segment calls for that it hands over. -/
theorem Follows.feed {r : Repl} {line : String} (h : Follows lines k r)
    (hline : lines[k]? = some line) :
    (due? lines k = none ∧ ∃ r', r.feed line.toList = (.wait, r') ∧ Follows lines (k + 1) r') ∨
    ∃ s, due? lines k = some s ∧
      ((trim s = "exit()".toList ∧ ∃ r', r.feed line.toList = (.exit, r')) ∨
        (trim s ≠ "exit()".toList ∧ ∃ entry r', trimStart entry = trimStart s ∧
          r.feed line.toList = (.evaluate (String.ofList entry), r') ∧
          Follows lines (k + 1) r')) := by
  have hmore := textOf_succ_of_getElem? hline
  have htrim := trimStart_append_congr h.pending (line.toList ++ ['\n'])
  rcases due?_cases hmore with ⟨hsplit, hdue, hsucc, hrest⟩ | ⟨s, hsplit, hdue, hsucc⟩
  · refine Or.inl ⟨hdue, { r with pending := r.pending ++ (line.toList ++ ['\n']) }, ?_, ?_⟩
    · have hnone : splitAtMark? (r.pending ++ (line.toList ++ ['\n'])) = none := by
        cases hpending : splitAtMark? (r.pending ++ (line.toList ++ ['\n'])) with
        | none => rfl
        | some parts =>
          obtain ⟨entry, hentry, -⟩ := splitAtMark?_of_trimStart htrim hpending
          rw [hsplit] at hentry
          cases hentry
      exact feed_of_none hnone
    · exact ⟨by rw [htrim, hrest], by rw [h.entry, hsucc]⟩
  · obtain ⟨entry, hentry, hblanks⟩ := splitAtMark?_of_trimStart htrim.symm hsplit
    have hexit : trim entry = trim s := by rw [trim, trim, hblanks]
    refine Or.inr ⟨s, hdue, ?_⟩
    rw [feed_of_some hentry, hexit]
    by_cases hs : trim s = "exit()".toList
    · exact Or.inl ⟨hs, _, if_pos hs⟩
    · refine Or.inr ⟨hs, entry, ⟨trimStart (restOf lines (k + 1)), r.entry + 1⟩, hblanks.symm,
        if_neg hs, ?_⟩
      exact ⟨trimStart_trimStart _, by rw [h.entry, hsucc]⟩

end Repl

namespace Command

open Text Repl

/-! ## The session -/

/-- What a session does besides reading. -/
inductive Deed where
  | prompt (entry : Nat)
  | evaluate (source : String)

namespace Deed

/-- What a deed prints and changes. An evaluation takes place in the scope of the session, and goes on
from the heap that the one before it has left. -/
def act : Run × State → Deed → Run × State
  | (run, st), prompt entry => ({ run with stdout := run.stdout ++ promptLine entry }, st)
  | (run, st), evaluate source =>
    let (result, heap) := GeoScript.evaluate source st.scope st.heap
    let run := match result with
      | .ok v => { run with stdout := run.stdout ++ (st.format.render v ++ "\n") }
      | .error e => { run with stderr := run.stderr ++ errorLine ("<repl>: " ++ e.message) }
    (run, { st with heap })

/-- The source of an evaluation. -/
def source? : Deed → Option String
  | prompt _ => none
  | evaluate source => some source

/-- Deeds that differ at most by blanks in front of a source. -/
inductive Alike : Deed → Deed → Prop
  | prompt (entry : Nat) : Alike (prompt entry) (prompt entry)
  | evaluate {source source' : String} (h : trimStart source.toList = trimStart source'.toList) :
    Alike (evaluate source) (evaluate source')

end Deed

/-- The prompt that the rest of the input calls for, which is one if the rest is blank. -/
def promptAt (lines : List String) (k : Nat) : List Deed :=
  if isAllBlank (restOf lines k) then [.prompt (handedOver lines k + 1)] else []

/-- What the input calls for around its line behind the first so many: the prompt in front of it, and
the segment that it hands over. -/
def deedsAt (lines : List String) (k : Nat) : List Deed :=
  promptAt lines k ++ (due? lines k).toList.map fun s => .evaluate (String.ofList s)

/-- What the first so many lines of the input call for. -/
def deedsUpTo (lines : List String) (k : Nat) : List Deed :=
  (List.range k).flatMap (deedsAt lines)

theorem deedsUpTo_succ (lines : List String) (k : Nat) :
    deedsUpTo lines (k + 1) = deedsUpTo lines k ++ deedsAt lines k := by
  rw [deedsUpTo, List.range_succ, List.flatMap_append, List.flatMap_singleton]
  rfl

/-- What is evaluated is what is handed over. -/
theorem sources_deedsUpTo (lines : List String) (k : Nat) :
    (deedsUpTo lines k).filterMap Deed.source? =
      ((segments (textOf lines k)).take (handedOver lines k)).map String.ofList := by
  induction k with
  | zero => rfl
  | succ k ih =>
    have hprompt : (promptAt lines k).filterMap Deed.source? = [] := by
      rw [promptAt]
      split <;> rfl
    rw [deedsUpTo_succ, List.filterMap_append, ih, take_handedOver_succ, List.map_append, deedsAt,
      List.filterMap_append, hprompt, List.nil_append]
    cases due? lines k <;> rfl

theorem sources_alike {deeds deeds' : List Deed} (h : List.Forall₂ Deed.Alike deeds deeds') :
    List.Forall₂ (fun source source' => trimStart source.toList = trimStart source'.toList)
      (deeds.filterMap Deed.source?) (deeds'.filterMap Deed.source?) := by
  induction h with
  | nil => exact .nil
  | cons hdeed _ ih =>
    cases hdeed with
    | prompt entry => exact ih
    | evaluate hsource => exact .cons hsource ih

@[simp] theorem Run.add_nothing (run : Run) : run.add .nothing = run := by
  simp [Run.add, Printed.nothing]

/-- The deed is what the session makes of an entry. -/
theorem act_evaluate (run : Run) (st : State) (source : String) :
    Deed.act (run, st) (.evaluate source) = (run.add (st.entry source).1, (st.entry source).2) := by
  rw [Deed.act, State.entry, State.evaluate]
  rcases GeoScript.evaluate source st.scope st.heap with ⟨e | v, heap⟩
  · simp [Run.add, Printed.report]
  · simp [Run.add, Printed.result]

theorem exit_entry (st : State) (source : String) : (st.entry source).1.exit = none := by
  rw [State.entry]
  split
  split <;> rfl

variable {lines : List String} {k : Nat} {r r' : Repl} {line : String}

theorem runLines_of_wait (h : r.feed line.toList = (.wait, r')) (run : Run) (st : State)
    (more : List (Except ReadFault String)) :
    runLines run st r (.ok line :: more) = runLines (run.add (prompt r)) st r' more := by
  rw [runLines, State.line, h]
  exact congrArg (runLines · st r' more) (Run.add_nothing _)

theorem runLines_of_evaluate {source : String} (h : r.feed line.toList = (.evaluate source, r'))
    (run : Run) (st : State) (more : List (Except ReadFault String)) :
    runLines run st r (.ok line :: more) =
      runLines ((run.add (prompt r)).add (st.entry source).1) (st.entry source).2 r' more := by
  rw [runLines, State.line, h]
  simp only [exit_entry, Option.isSome_none, Bool.false_eq_true, if_false]

theorem runLines_of_exit (h : r.feed line.toList = (.exit, r')) (run : Run) (st : State)
    (more : List (Except ReadFault String)) :
    runLines run st r (.ok line :: more) =
      { run.add (prompt r) with exit := 0 } := by
  rw [runLines, State.line, h]
  simp [Run.add, Printed.nothing]

theorem foldl_promptAt (h : Follows lines k r) (p : Run × State) :
    (promptAt lines k).foldl Deed.act p = (p.1.add (prompt r), p.2) := by
  rw [promptAt, ← h.promptDue, ← h.entry, prompt]
  by_cases hdue : r.promptDue = true
  · rw [if_pos hdue, if_pos hdue]
    simp [Deed.act, Run.add]
  · rw [if_neg hdue, if_neg hdue, Run.add_nothing]
    rfl

/-- What a session has done by so many lines, and what it has pending then. -/
structure Reached (lines : List String) (k : Nat) (deeds : List Deed) (r : Repl) : Prop where
  /-- The session goes on from there, whatever the evaluations have given. -/
  runs : ∀ run st more, runLines run st .start ((lines.take k).map .ok ++ more) =
    runLines (deeds.foldl Deed.act (run, st)).1 (deeds.foldl Deed.act (run, st)).2 r more
  deeds : List.Forall₂ Deed.Alike deeds (deedsUpTo lines k)
  follows : Follows lines k r

theorem Reached.runs_line {deeds : List Deed} (h : Reached lines k deeds r)
    (hline : lines[k]? = some line) (run : Run) (st : State)
    (more : List (Except ReadFault String)) :
    runLines run st .start ((lines.take (k + 1)).map .ok ++ more) =
      runLines (deeds.foldl Deed.act (run, st)).1 (deeds.foldl Deed.act (run, st)).2 r
        (.ok line :: more) := by
  rw [List.take_add_one, hline, Option.toList_some, List.map_append, List.append_assoc, h.runs]
  rfl

theorem alike_refl (deed : Deed) : deed.Alike deed := by
  cases deed with
  | prompt entry => exact .prompt entry
  | evaluate source => exact .evaluate rfl

/-- One line more, unless it ends the session. -/
theorem Reached.succ {deeds : List Deed} (h : Reached lines k deeds r) (hk : k < lines.length)
    (hopen : ∀ s, due? lines k = some s → trim s ≠ "exit()".toList) :
    ∃ deeds' r', Reached lines (k + 1) deeds' r' := by
  have hline := List.getElem?_eq_getElem hk
  have hprompt : List.Forall₂ Deed.Alike (promptAt lines k) (promptAt lines k) :=
    List.forall₂_same.2 fun deed _ => alike_refl deed
  rcases h.follows.feed hline with ⟨hdue, r', hfeed, hfollows⟩ | ⟨s, hdue, hs⟩
  · refine ⟨deeds ++ promptAt lines k, r', ?_, ?_, hfollows⟩
    · intro run st more
      rw [h.runs_line hline, runLines_of_wait hfeed, List.foldl_append,
        foldl_promptAt h.follows]
    · rw [deedsUpTo_succ, deedsAt, hdue, Option.toList_none, List.map_nil, List.append_nil]
      exact List.rel_append h.deeds hprompt
  · rcases hs with ⟨hexit, -⟩ | ⟨-, entry, r', hblanks, hfeed, hfollows⟩
    · exact absurd hexit (hopen s hdue)
    · refine ⟨deeds ++ (promptAt lines k ++ [.evaluate (String.ofList entry)]), r', ?_, ?_, hfollows⟩
      · intro run st more
        rw [h.runs_line hline, runLines_of_evaluate hfeed, List.foldl_append, List.foldl_append,
          foldl_promptAt h.follows, List.foldl_cons, act_evaluate, List.foldl_nil]
      · rw [deedsUpTo_succ, deedsAt, hdue]
        refine List.rel_append h.deeds (List.rel_append hprompt (.cons (.evaluate ?_) .nil))
        rw [String.toList_ofList, String.toList_ofList, hblanks]

theorem reached_start (lines : List String) : Reached lines 0 [] .start :=
  ⟨fun _ _ _ => rfl, .nil, follows_start lines⟩

/-- As long as no segment ends the session, it reaches every line. -/
theorem exists_reached (hk : k ≤ lines.length)
    (hopen : ∀ s ∈ (segments (textOf lines k)).take (handedOver lines k),
      trim s ≠ "exit()".toList) : ∃ deeds r, Reached lines k deeds r := by
  induction k with
  | zero => exact ⟨[], .start, reached_start lines⟩
  | succ k ih =>
    rw [take_handedOver_succ] at hopen
    obtain ⟨deeds, r, h⟩ := ih (Nat.le_of_succ_le hk) fun s hs =>
      hopen s (List.mem_append_left _ hs)
    apply h.succ hk
    intro s hdue
    apply hopen s
    rw [hdue]
    exact List.mem_append_right _ (List.mem_singleton_self s)

/-- The session after any number of lines of its input, as long as no segment handed over by then
is `exit()`. It has prompted and evaluated as the input calls for, it evaluated the segments in
order, and the rest of the input is pending. It ends with the input or with the line that hands over
`exit()`. -/
theorem session_follows (lines : List String) (k : Nat) (hk : k ≤ lines.length)
    (hopen : ∀ s ∈ (segments (textOf lines k)).take (handedOver lines k),
      trim s ≠ "exit()".toList) :
    ∃ deeds r, Reached lines k deeds r ∧
      List.Forall₂ (fun source s => trimStart source.toList = trimStart s)
        (deeds.filterMap Deed.source?) ((segments (textOf lines k)).take (handedOver lines k)) ∧
      trimStart r.pending = trimStart (restAfter (handedOver lines k) (textOf lines k)) ∧
      r.entry = handedOver lines k + 1 ∧
      r.promptDue = isAllBlank (restAfter (handedOver lines k) (textOf lines k)) ∧
      (k = lines.length → ∀ run st, runLines run st .start (lines.map .ok) =
        ((deeds ++ promptAt lines k).foldl Deed.act (run, st)).1) ∧
      ∀ s, k < lines.length → due? lines k = some s → trim s = "exit()".toList →
        ∀ run st more, runLines run st .start ((lines.take (k + 1)).map .ok ++ more) =
          { ((deeds ++ promptAt lines k).foldl Deed.act (run, st)).1 with exit := 0 } := by
  obtain ⟨deeds, r, h⟩ := exists_reached hk hopen
  refine ⟨deeds, r, h, ?_, h.follows.pending, h.follows.entry, h.follows.promptDue, ?_, ?_⟩
  · have hsources := sources_alike h.deeds
    rw [sources_deedsUpTo, List.forall₂_map_right_iff] at hsources
    simpa only [String.toList_ofList] using hsources
  · intro hend run st
    have hruns := h.runs run st []
    rw [hend, List.take_length, List.append_nil, runLines] at hruns
    rw [hruns, List.foldl_append, foldl_promptAt h.follows]
  · intro s hlt hdue hexit run st more
    have hline := List.getElem?_eq_getElem hlt
    rcases h.follows.feed hline with ⟨hnone, -⟩ | ⟨s', hdue', hs⟩
    · rw [hnone] at hdue
      cases hdue
    · obtain rfl := Option.some.inj (hdue.symm.trans hdue')
      rcases hs with ⟨-, r', hfeed⟩ | ⟨hne, -⟩
      · rw [h.runs_line hline, runLines_of_exit hfeed, List.foldl_append, foldl_promptAt h.follows]
      · exact absurd hexit hne

/-- Three segments are handed over by four lines, one of them from `;;;`, and the fifth line ends the
session though it has more to say. -/
theorem session_follows_exit :
    let lines := ["1 +", "2;;3;;;", " ;; exit() ;;", "4", "5;;"]
    (segments (textOf lines 4)).take (handedOver lines 4) =
        ["1 +\n2".toList, "3".toList, ";\n ".toList] ∧
      due? lines 4 = some " exit() ".toList ∧
      ∃ deeds r, Reached lines 4 deeds r ∧ r.entry = 4 ∧
        ∀ run st, runLines run st .start (lines.map .ok) =
          { ((deeds ++ promptAt lines 4).foldl Deed.act (run, st)).1 with exit := 0 } := by
  intro lines
  have hsegments : (segments (textOf lines 4)).take (handedOver lines 4) =
      ["1 +\n2".toList, "3".toList, ";\n ".toList] := by decide
  have hopen : ∀ s ∈ (segments (textOf lines 4)).take (handedOver lines 4),
      trim s ≠ "exit()".toList := by
    rw [hsegments]
    decide
  obtain ⟨deeds, r, h, -, -, hentry, -, -, hexit⟩ := session_follows lines 4 (by decide) hopen
  refine ⟨hsegments, by decide, deeds, r, h, hentry, ?_⟩
  intro run st
  exact hexit " exit() ".toList (by decide) (by decide) (by decide) run st []

end Command

end GeoScript
