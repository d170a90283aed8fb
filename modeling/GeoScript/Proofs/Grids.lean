import GeoScript.Proofs.Operations
import Mathlib.Algebra.Order.Ring.Int

/-!
# Grids of points

**Size.** A grid has as many points as the product of its width and its height says, up to `2 ^ 24` of
them. The product is the one of natural numbers. Words of 64 bits have to be multiplied with a check
for that, as the product of two of them may well wrap around to a small number; with the check nothing
is lost (`pointGrid_toNat`).

**Order.** The points stand column by column, as two nested loops make them (`cells_eq`), so that the
point in column `i` and row `j` is number `i * height + j`.

**Theorem (`pointGrid_exact`).** A grid is made exactly when the product is within the limit, and then
every one of its points is where it should be. Beyond the limit there is nothing but the fault. Calls
from programs do the same with the counts that their arguments stand for.
-/

namespace GeoScript

/-! ## Counts -/

theorem Number.clamp64_lt (n : Int) : clamp64 n < 2 ^ 63 := by
  unfold clamp64
  omega

theorem Value.asInteger_lt {what : Quantity} {v : Value} {i : Int} (h : v.asInteger what = .ok i) :
    i < 2 ^ 63 := by
  cases v with
  | number x =>
    simp only [asInteger, asNumber, bind, Except.bind] at h
    split at h
    · next n _ => exact Except.ok.inj h ▸ Number.clamp64_lt n
    · cases h
  | _ => cases h

/-- Counts fit into words of 64 bits, with a sign. -/
theorem Value.asCount_lt {what : Quantity} {v : Value} {n : Nat} (h : v.asCount what = .ok n) :
    n < 2 ^ 63 := by
  unfold Value.asCount at h
  cases hi : v.asInteger what with
  | error fault =>
    rw [hi] at h
    cases h
  | ok i =>
    rw [hi] at h
    have hlt := Value.asInteger_lt hi
    cases i with
    | negSucc k => cases h
    | ofNat k =>
      obtain rfl : k = n := Except.ok.inj h
      exact Int.ofNat_lt.1 hlt

namespace Library.Shapes

/-! ## Columns and rows -/

/-- The point in a column and a row. -/
def cell (spacing : Float) (i j : Nat) : Geometry :=
  .point ⟨Float.ofNat i * spacing, Float.ofNat j * spacing⟩

/-- All points as two loops make them, the columns outside. -/
def cells (width height : Nat) (spacing : Float) : List Geometry :=
  (List.range width).flatMap fun i => (List.range height).map (cell spacing i)

variable {width height i j : Nat}

/-- Column and row of a point follow from its number. -/
theorem column_row (hj : j < height) (i : Nat) :
    (i * height + j) / height = i ∧ (i * height + j) % height = j := by
  have hheight : 0 < height := Nat.zero_lt_of_lt hj
  rw [Nat.add_comm]
  constructor
  · rw [Nat.add_mul_div_right j i hheight, Nat.div_eq_of_lt hj, Nat.zero_add]
  · rw [Nat.add_mul_mod_self_right, Nat.mod_eq_of_lt hj]

/-- One more column stands behind those there are. -/
theorem cells_succ (width height : Nat) (spacing : Float) :
    cells (width + 1) height spacing =
      cells width height spacing ++ (List.range height).map (cell spacing width) := by
  rw [cells, List.range_succ, List.flatMap_append, List.flatMap_singleton]
  rfl

theorem cells_eq (width height : Nat) (spacing : Float) :
    cells width height spacing =
      (List.range (width * height)).map fun k => cell spacing (k / height) (k % height) := by
  induction width with
  | zero => simp [cells]
  | succ width ih =>
    rw [cells_succ, ih, Nat.succ_mul, List.range_add, List.map_append, List.map_map]
    congr 1
    apply List.map_congr_left
    intro j hj
    obtain ⟨hcolumn, hrow⟩ := column_row (List.mem_range.1 hj) width
    rw [Function.comp_apply, hcolumn, hrow]

theorem length_cells (width height : Nat) (spacing : Float) :
    (cells width height spacing).length = width * height := by
  rw [cells_eq, List.length_map, List.length_range]

theorem getElem?_cells (hi : i < width) (hj : j < height) (spacing : Float) :
    (cells width height spacing)[i * height + j]? = some (cell spacing i j) := by
  have hlt : i * height + j < width * height := by
    calc
      i * height + j < i * height + height := by omega
      _ = (i + 1) * height := (Nat.succ_mul i height).symm
      _ ≤ width * height := Nat.mul_le_mul_right height hi
  obtain ⟨hcolumn, hrow⟩ := column_row hj i
  rw [cells_eq, List.getElem?_map, List.getElem?_range hlt, Option.map_some, hcolumn, hrow]

/-! ## Grids -/

theorem pointGrid_of_le (h : width * height ≤ maxElements) (spacing : Float) :
    pointGrid width height spacing = .ok (.collection (cells width height spacing)) := by
  rw [pointGrid, if_pos h, cells_eq]
  rfl

theorem pointGrid_of_lt (h : maxElements < width * height) (spacing : Float) :
    pointGrid width height spacing =
      .error (.tooManyElements "PointGrid" (Float.ofNat width * Float.ofNat height)) := by
  rw [pointGrid, if_neg (Nat.not_le.2 h)]
  rfl

/-- The product of two words, unless it wraps around. -/
def checkedProduct (a b : UInt64) : Option UInt64 :=
  if BitVec.umulOverflow a.toBitVec b.toBitVec then none else some (a * b)

/-- The grid of two words, by their checked product and two loops. -/
def wordGrid (a b : UInt64) (spacing : Float) : Except EvalFault Geometry :=
  match (checkedProduct a b).filter (·.toNat ≤ maxElements) with
  | some _ => .ok (.collection (cells a.toNat b.toNat spacing))
  | none => .error (tooMany "PointGrid" (Float.ofNat a.toNat * Float.ofNat b.toNat))

/-- A checked product is the product of the numbers. -/
theorem checkedProduct_eq_some_iff {a b t : UInt64} :
    checkedProduct a b = some t ↔ t.toNat = a.toNat * b.toNat := by
  have hover : BitVec.umulOverflow a.toBitVec b.toBitVec = true ↔ 2 ^ 64 ≤ a.toNat * b.toNat := by
    simp [BitVec.umulOverflow]
  by_cases hwrap : 2 ^ 64 ≤ a.toNat * b.toNat
  · rw [checkedProduct, if_pos (hover.2 hwrap)]
    have hlt := t.toNat_lt
    constructor
    · nofun
    · intro ht
      omega
  · have hproduct : (a * b).toNat = a.toNat * b.toNat := by
      rw [UInt64.toNat_mul, Nat.mod_eq_of_lt (Nat.not_le.1 hwrap)]
    rw [checkedProduct, if_neg fun h => hwrap (hover.1 h), Option.some.injEq, ← hproduct,
      eq_comm, UInt64.toNat_inj]

theorem pointGrid_toNat (a b : UInt64) (spacing : Float) :
    pointGrid a.toNat b.toNat spacing = wordGrid a b spacing := by
  by_cases hle : a.toNat * b.toNat ≤ maxElements
  · obtain ⟨t, ht⟩ : ∃ t : UInt64, t.toNat = a.toNat * b.toNat :=
      ⟨_, UInt64.toNat_ofNat_of_lt' (Nat.lt_of_le_of_lt hle (by decide))⟩
    rw [pointGrid_of_le hle, wordGrid, checkedProduct_eq_some_iff.2 ht,
      Option.filter_some_pos (by simpa [ht] using hle)]
  · have hnone : (checkedProduct a b).filter (·.toNat ≤ maxElements) = none := by
      apply Option.filter_eq_none_iff.2
      intro t ht
      rw [checkedProduct_eq_some_iff.1 ht]
      simpa using hle
    rw [pointGrid_of_lt (Nat.not_le.1 hle), wordGrid, hnone]
    rfl

/-! ## Calls -/

/-- The library function. -/
def gridNative : Native := ⟨"geometry", "PointGrid", 2, some 3⟩

section Calls

variable {v w : Value} {x y : Nat}

/-- With a spacing. -/
theorem runOn_grid (hv : v.asCount .gridWidth = .ok x) (hw : w.asCount .gridHeight = .ok y)
    (s : Float) (line : Nat) (h : Heap) :
    (gridNative.call [v, w, .number s] line).runOn h =
      (((pointGrid x y s).map .geometry).mapError (⟨·, line⟩), h) := by
  have hcall : gridNative.call [v, w, .number s] line = .ofExcept line (do
      let x ← v.asCount .gridWidth
      let y ← w.asCount .gridHeight
      return .geometry (← pointGrid x y s)) := rfl
  rw [hcall, Effect.runOn_ofExcept, hv, hw]
  rfl

/-- Without a spacing it is one. -/
theorem runOn_grid_one (hv : v.asCount .gridWidth = .ok x) (hw : w.asCount .gridHeight = .ok y)
    (line : Nat) (h : Heap) :
    (gridNative.call [v, w] line).runOn h =
      (((pointGrid x y 1).map .geometry).mapError (⟨·, line⟩), h) := by
  have hcall : gridNative.call [v, w] line = .ofExcept line (do
      let x ← v.asCount .gridWidth
      let y ← w.asCount .gridHeight
      return .geometry (← pointGrid x y 1)) := rfl
  rw [hcall, Effect.runOn_ofExcept, hv, hw]
  rfl

end Calls

/-- **Grids are sized by the exact product.** -/
theorem pointGrid_exact (x y : Nat) (s : Float) :
    ((∃ g, pointGrid x y s = .ok g) ↔ x * y ≤ 2 ^ 24) ∧
    (x * y ≤ 2 ^ 24 → ∃ points, pointGrid x y s = .ok (.collection points) ∧
      points.length = x * y ∧ ∀ i < x, ∀ j < y,
        points[i * y + j]? = some (.point ⟨Float.ofNat i * s, Float.ofNat j * s⟩)) ∧
    (2 ^ 24 < x * y → pointGrid x y s =
      .error (.tooManyElements "PointGrid" (Float.ofNat x * Float.ofNat y))) ∧
    (∀ a b : UInt64, a.toNat = x → b.toNat = y → wordGrid a b s = pointGrid x y s) ∧
    ∀ (v w : Value) (line : Nat) (h : Heap),
      v.asCount .gridWidth = .ok x → w.asCount .gridHeight = .ok y →
      (x < 2 ^ 63 ∧ y < 2 ^ 63) ∧
      ∀ args, args = [v, w, .number s] ∨ args = [v, w] ∧ s = 1 →
        (gridNative.call args line).runOn h =
          (((pointGrid x y s).map .geometry).mapError (⟨·, line⟩), h) := by
  have hlimit : 2 ^ 24 = maxElements := rfl
  rw [hlimit]
  refine ⟨⟨?_, ?_⟩, ?_, fun h => pointGrid_of_lt h s, ?_, ?_⟩
  · intro ⟨g, hg⟩
    apply Nat.not_lt.1
    intro hlt
    rw [pointGrid_of_lt hlt] at hg
    cases hg
  · intro h
    exact ⟨_, pointGrid_of_le h s⟩
  · intro h
    exact ⟨_, pointGrid_of_le h s, length_cells x y s, fun i hi j hj => getElem?_cells hi hj s⟩
  · intro a b ha hb
    rw [← ha, ← hb, pointGrid_toNat]
  · intro v w line h hv hw
    refine ⟨⟨Value.asCount_lt hv, Value.asCount_lt hw⟩, fun args hargs => ?_⟩
    cases hargs with
    | inl hthree =>
      subst hthree
      exact runOn_grid hv hw s line h
    | inr htwo =>
      obtain ⟨hargs, hs⟩ := htwo
      subst hargs hs
      exact runOn_grid_one hv hw line h

/-- The product of `2 ^ 32` with itself is zero in words of 64 bits, and yet there is no such grid. -/
theorem pointGrid_exact_wrapping :
    let side : Value := .number 4294967296
    let h : Heap := .empty 0
    side.asCount .gridWidth = .ok (2 ^ 32) ∧ side.asCount .gridHeight = .ok (2 ^ 32) ∧
      (UInt64.ofNat (2 ^ 32) * UInt64.ofNat (2 ^ 32) : UInt64) = 0 ∧
      (gridNative.call [side, side] 1).runOn h = (.error ⟨.tooManyElements "PointGrid"
        (Float.ofNat (2 ^ 32) * Float.ofNat (2 ^ 32)), 1⟩, h) := by
  intro side h
  have hwidth : side.asCount .gridWidth = .ok (2 ^ 32) := by rfl
  have hheight : side.asCount .gridHeight = .ok (2 ^ 32) := by rfl
  obtain ⟨-, -, hfault, -, hcall⟩ := pointGrid_exact (2 ^ 32) (2 ^ 32) 1
  refine ⟨hwidth, hheight, by decide, ?_⟩
  rw [(hcall side side 1 h hwidth hheight).2 _ (.inr ⟨rfl, rfl⟩), hfault (by decide)]
  rfl

end Library.Shapes

end GeoScript
