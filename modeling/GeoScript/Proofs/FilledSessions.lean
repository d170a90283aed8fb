import GeoScript.Proofs.Exactness
import GeoScript.Proofs.Lexing
import GeoScript.Proofs.Recording
import GeoScript.Proofs.Soundness

/-!
# No program makes an empty ring

**Programs.** The grammar has no form for an empty ring, so no literal of a program that was read
from a text has an empty list inside (`meets_of_parse`).

**Theorem (`geometries_filled`).** In a session, all geometries are filled: those bound in any
scope, the results, and all that turn up in between, as the value of a part of a program or as what
a function is called with or returns.

**Proof.** Nothing but filled geometries is bound at the beginning, and every evaluation keeps it
so: that is `record_execute` for the terms that rule empty lists out.
-/

namespace GeoScript

/-- No empty lists inside geometries; everything else is allowed. -/
def Terms.full : Terms := ⟨fun _ => True, fun _ => True, False⟩

/-! ## Programs -/

section

variable {V : Vocabulary}

mutual

/-- Trees of the form that the grammar makes have no empty lists inside geometries. -/
theorem Expr.meets_full {role : Role} : ∀ e : Expr, e.fits V role = true → e.Meets .full
  | .number _ _, _ | .bool _ _, _ | .typeTag _ _, _ | .ident _ _, _ => by
    simp [Expr.Meets, Terms.full]
  | .decl _ value _, h => by
    simp only [Expr.fits, Bool.and_eq_true] at h
    simpa only [Expr.Meets] using value.meets_full h.2
  | .seq items _, h => by
    simp only [Expr.fits, Bool.and_eq_true] at h
    simpa only [Expr.Meets] using Expr.meetsAll_full items h.2
  | .geometry _ body _, h => by
    simp only [Expr.fits, Bool.and_eq_true] at h
    simpa only [Expr.Meets] using body.meets_full h.2
  | .function _ body _, h => by
    simp only [Expr.fits, Bool.and_eq_true] at h
    simpa only [Expr.Meets] using ⟨trivial, body.meets_full h.2⟩
  | .call callee args, h => by
    simp only [Expr.fits, Bool.and_eq_true] at h
    simpa only [Expr.Meets] using ⟨callee.meets_full h.1.2, Expr.meetsAll_full args h.2⟩
  | .access target _ args, h => by
    simp only [Expr.fits, Bool.and_eq_true] at h
    simpa only [Expr.Meets] using ⟨target.meets_full h.1.1.2, Expr.meetsAll_full args h.2⟩
  | .binary _ left right, h => by
    simp only [Expr.fits, Bool.and_eq_true] at h
    simpa only [Expr.Meets] using ⟨left.meets_full h.1.2, right.meets_full h.2⟩
  | .generate count body _, h => by
    simp only [Expr.fits, Bool.and_eq_true] at h
    simpa only [Expr.Meets] using ⟨count.meets_full h.1.2, body.meets_full h.2⟩
  | .cond condition thenBranch elseBranch _, h => by
    simp only [Expr.fits, Bool.and_eq_true] at h
    simpa only [Expr.Meets] using ⟨condition.meets_full h.1.1.2, thenBranch.meets_full h.1.2,
      elseBranch.meets_full h.2⟩
  | .not operand _, h | .neg operand _, h => by
    simp only [Expr.fits, Bool.and_eq_true] at h
    simpa only [Expr.Meets] using operand.meets_full h.2

theorem Expr.meetsAll_full {role : Role} :
    ∀ es : List Expr, Expr.fitAll V role es = true → Expr.MeetsAll .full es
  | [], _ => by simp only [Expr.MeetsAll]
  | e :: es, h => by
    simp only [Expr.fitAll, Bool.and_eq_true] at h
    simpa only [Expr.MeetsAll] using ⟨e.meets_full h.1, Expr.meetsAll_full es h.2⟩

theorem Element.meets_full : ∀ e : Element, e.fits V = true → e.Meets .full
  | .pair x y, h => by
    simp only [Element.fits, Bool.and_eq_true] at h
    simpa only [Element.Meets] using ⟨x.meets_full h.1, y.meets_full h.2⟩
  | .value e, h => by
    simp only [Element.fits] at h
    simpa only [Element.Meets] using e.meets_full h

theorem Element.meetsAll_full :
    ∀ es : List Element, Element.fitAll V es = true → Element.MeetsAll .full es
  | [], _ => by simp only [Element.MeetsAll]
  | e :: es, h => by
    simp only [Element.fitAll, Bool.and_eq_true] at h
    simpa only [Element.MeetsAll] using ⟨e.meets_full h.1, Element.meetsAll_full es h.2⟩

theorem Element.meetsRings_full :
    ∀ rs : List (List Element), Element.fitRings V rs = true → Element.MeetsRings .full rs
  | [], _ => by simp only [Element.MeetsRings]
  | r :: rs, h => by
    simp only [Element.fitRings, Bool.and_eq_true, Bool.not_eq_true',
      List.isEmpty_eq_false_iff] at h
    simpa only [Element.MeetsRings] using
      ⟨Or.inr h.1.1, Element.meetsAll_full r h.1.2, Element.meetsRings_full rs h.2⟩

theorem Element.meetsPolygons_full :
    ∀ ps : List (List (List Element)), Element.fitPolygons V ps = true →
      Element.MeetsPolygons .full ps
  | [], _ => by simp only [Element.MeetsPolygons]
  | p :: ps, h => by
    simp only [Element.fitPolygons, Bool.and_eq_true, Bool.not_eq_true',
      List.isEmpty_eq_false_iff] at h
    simpa only [Element.MeetsPolygons] using
      ⟨Or.inr h.1.1, Element.meetsRings_full p h.1.2, Element.meetsPolygons_full ps h.2⟩

theorem Body.meets_full {kind : Geometry.Kind} : ∀ b : Body, b.fits V kind = true → b.Meets .full
  | .empty, _ => by simp only [Body.Meets]
  | .point x y, h => by
    simp only [Body.fits, Bool.and_eq_true] at h
    simpa only [Body.Meets] using ⟨x.meets_full h.1.2, y.meets_full h.2⟩
  | .elements items, h => by
    simp only [Body.fits, Bool.and_eq_true] at h
    simpa only [Body.Meets] using Element.meetsAll_full items h.2
  | .rings rs, h => by
    simp only [Body.fits, Bool.and_eq_true] at h
    simpa only [Body.Meets] using Element.meetsRings_full rs h.2
  | .polygons ps, h => by
    simp only [Body.fits, Bool.and_eq_true] at h
    simpa only [Body.Meets] using Element.meetsPolygons_full ps h.2

end

end

/-- Whatever a token list ends in, its tree is made of items that the grammar allows. -/
theorem fits_of_parse {ts : List Token} {e : Expr} (hend : EndMarked ts)
    (h : Expr.parse ts = .ok e) : e.fits .any .body = true := by
  unfold Expr.parse Expr.parseWith at h
  split at h
  · next a c hprogram =>
    cases h
    obtain ⟨hrun, -⟩ := program_ok (Prod.ext hprogram rfl)
    obtain ⟨us, -, -, es, hes, rfl⟩ := reads_run _ .sequence _ hend _ _ _ _ hrun
    have hitems : ∀ e ∈ es, e.fits .any .item = true := hes.isForm
    simpa [Expr.fits] using hitems
  · cases h
  · cases h

/-- Programs have no empty lists inside geometries. -/
theorem meets_of_parse {source : String} {program : Expr} (h : parse source = .ok program) :
    program.Meets .full := by
  unfold parse at h
  cases hscan : Lexer.scan source with
  | error e =>
    rw [hscan] at h
    cases h
  | ok ts =>
    rw [hscan] at h
    exact program.meets_full (fits_of_parse (Lexer.endMarked_of_scan hscan) h)

/-! ## Sessions -/

/-- Whatever keeps to these terms is filled. -/
theorem Value.filled_of_meets {v : Value} (hv : v.Meets fun _ => .full) : v.Filled := by
  cases v with
  | closure => trivial
  | _ => exact hv fun _ hhollow => hhollow

theorem Heap.Binds.filled {h : Heap} (hb : h.Binds (Value.Meets fun _ => .full)) :
    h.Binds Value.Filled :=
  fun id name v hl => Value.filled_of_meets (hb id name v hl)

/-- Libraries export functions and numbers. -/
theorem meets_of_mem_standardBindings {b : String × Value}
    (hb : b ∈ Library.standardBindings) : b.2.Meets fun _ => .full := by
  obtain ⟨l, -, hb⟩ := List.mem_flatMap.1 hb
  obtain ⟨e, -, rfl⟩ := List.mem_map.1 hb
  show (l.value e).Meets _
  unfold Library.value
  split <;> exact fun _ => trivial

theorem binds_evaluate {h : Heap} (hb : h.Binds (Value.Meets fun _ => .full)) (source : String)
    (scope : ScopeId) : (evaluate source scope h).2.Binds (Value.Meets fun _ => .full) := by
  cases hp : parse source with
  | error err =>
    rw [evaluate, hp]
    exact hb
  | ok program =>
    obtain ⟨-, -, -, -, hb', hv⟩ :=
      record_execute (T := fun _ => .full) (Nat.le_refl callLimit) (meets_of_parse hp) hb scope
    rw [evaluate_of_parse hp]
    exact (hb'.remember hv).collect _

/-- In a session all geometries that are bound are filled. -/
theorem Session.binds {root : ScopeId} {h : Heap} (hs : Session root h) :
    h.Binds (Value.Meets fun _ => .full) := by
  induction hs with
  | start libraries draws =>
    exact Heap.binds_start (fun _ => meets_of_mem_standardBindings) libraries draws
  | child _ _ ih => exact (ih.newChild _).hold _
  | letGo hs hc ih =>
    obtain ⟨hr, ht⟩ := hs.rooted
    rw [hr.letGo_eq ht hc]
    exact ih
  | evaluate source _ _ ih => exact binds_evaluate ih source _

/-- **No program makes an empty ring.** After a session, whatever text is evaluated next: what is
bound before and afterwards is filled, so is the result, and so is every value in the log of the
run, which ends as the evaluation does. -/
theorem geometries_filled {root : ScopeId} {h : Heap} (hs : Session root h) (scope : ScopeId)
    (source : String) :
    h.Binds Value.Filled ∧ (evaluate source scope h).2.Binds Value.Filled ∧
      (∀ v, (evaluate source scope h).1 = .ok v → v.Filled) ∧
      ∀ program, parse source = .ok program → ∃ log,
        h.record callLimit callLimit program scope = ((h.execute callLimit program scope).1,
          ⟨(h.execute callLimit program scope).2, 0, log⟩) ∧
        ∀ e ∈ log, ∀ v ∈ e.values, v.Filled := by
  have hb := hs.binds
  refine ⟨hb.filled, (binds_evaluate hb source scope).filled, ?_, ?_⟩
  · intro v hv
    cases hp : parse source with
    | error err =>
      rw [evaluate, hp] at hv
      cases hv
    | ok program =>
      obtain ⟨-, -, -, -, -, hvalue⟩ :=
        record_execute (T := fun _ => .full) (Nat.le_refl callLimit) (meets_of_parse hp) hb scope
      rw [evaluate_of_parse hp] at hv
      cases hr : (h.execute callLimit program scope).1 with
      | error err =>
        rw [hr] at hv
        cases hv
      | ok u =>
        rw [hr] at hv
        rw [← Except.ok.inj hv]
        exact Value.filled_of_meets (hvalue u hr)
  · intro program hp
    obtain ⟨log, hrun, -, hlog, -⟩ :=
      record_execute (T := fun _ => .full) (Nat.le_refl callLimit) (meets_of_parse hp) hb scope
    exact ⟨log, hrun, fun e he v hv => Value.filled_of_meets (hlog e he v hv)⟩

/-- A polygon of no points, in a root with the standard libraries. -/
theorem geometries_filled_emptyPolygon :
    let h := (Heap.start true 0).2
    let source := "p = ToPolygon(LINESTRING EMPTY); p"
    Session 0 h ∧ ∃ v, (evaluate source 0 h).1 = .ok v ∧ v.isGeometry = true ∧ v.Filled ∧
      ∃ program, parse source = .ok program ∧ ∃ log,
        (h.record callLimit callLimit program 0).2.log = log ∧
        ∀ e ∈ log, ∀ v ∈ e.values, v.Filled := by
  intro h source
  have hs : Session 0 h := .start true 0
  obtain ⟨-, -, hresult, hlog⟩ := geometries_filled hs 0 source
  have hok : (evaluate source 0 h).1.toOption.any Value.isGeometry = true := by decide +kernel
  have hparse : (parse source).isOk = true := by decide +kernel
  refine ⟨hs, ?_⟩
  cases hv : (evaluate source 0 h).1 with
  | error err =>
    rw [hv] at hok
    cases hok
  | ok v =>
    rw [hv] at hok
    refine ⟨v, rfl, hok, hresult v hv, ?_⟩
    cases hp : parse source with
    | error err =>
      rw [hp] at hparse
      cases hparse
    | ok program =>
      obtain ⟨log, hrun, hvalues⟩ := hlog program hp
      exact ⟨program, rfl, log, by rw [hrun], hvalues⟩

end GeoScript
