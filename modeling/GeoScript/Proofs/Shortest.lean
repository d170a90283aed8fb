import GeoScript.Decimal.Shortest
import GeoScript.Proofs.Rounding

/-!
# The shortest decimal lies in the interval

**Theorem (`rounds_shortest`).** What the search for the fewest digits ends with lies in the interval
of the double, so that it reads back as the double.

**Why the search ends.** The interval is at least as wide as the distance to a neighbour. The leading
digit of the double has an exponent that is not overestimated, and the mantissa is below `2 ^ 53`,
which is less than `10 ^ 16`; so the grid of decimals with 17 digits is finer than the interval is
wide, and one of the two grid points around the double lies in the interval.
-/

namespace GeoScript.Decimal

/-! ## Ratios -/

namespace Ratio

/-- The rational number that a ratio stands for. -/
def value (r : Ratio) : ℚ := r.num / r.den

/-- Neither part of the ratio is zero. -/
structure IsPos (r : Ratio) : Prop where
  num : 0 < r.num
  den : 0 < r.den

theorem isPos_pow {base : ℕ} (hb : 0 < base) (e : ℤ) : (pow base e).IsPos := by
  cases e with
  | ofNat e => exact ⟨Nat.pow_pos hb, Nat.one_pos⟩
  | negSucc e => exact ⟨Nat.one_pos, Nat.pow_pos hb⟩

theorem value_pow (base : ℕ) (e : ℤ) : (pow base e).value = (base : ℚ) ^ e := by
  cases e with
  | ofNat e => simp [pow, value]
  | negSucc e => simp [pow, value, zpow_negSucc]

theorem IsPos.mul {a b : Ratio} (ha : a.IsPos) (hb : b.IsPos) : (a.mul b).IsPos :=
  ⟨Nat.mul_pos ha.num hb.num, Nat.mul_pos ha.den hb.den⟩

theorem value_mul (a b : Ratio) : (a.mul b).value = a.value * b.value := by
  simp [mul, value, mul_div_mul_comm]

theorem IsPos.value {r : Ratio} (h : r.IsPos) : 0 < r.value := by
  have hnum : (0 : ℚ) < r.num := by exact_mod_cast h.num
  have hden : (0 : ℚ) < r.den := by exact_mod_cast h.den
  exact div_pos hnum hden

end Ratio

/-- The number of digits, as powers of ten. -/
theorem pow_length_toDigits {n : ℕ} (hn : 0 < n) :
    10 ^ ((Nat.toDigits 10 n).length - 1) ≤ n ∧ n < 10 ^ (Nat.toDigits 10 n).length := by
  have hlen : 0 < (Nat.toDigits 10 n).length := Nat.length_toDigits_pos
  refine ⟨?_, (Nat.length_toDigits_le_iff (by norm_num) hlen).1 le_rfl⟩
  by_cases hone : (Nat.toDigits 10 n).length = 1
  · rw [hone]
    exact hn
  · have hshort : ¬ (Nat.toDigits 10 n).length ≤ (Nat.toDigits 10 n).length - 1 := by omega
    rw [Nat.length_toDigits_le_iff (by norm_num) (by omega)] at hshort
    exact not_lt.1 hshort

theorem ten_zpow_neg_mul_le {a b j : ℕ} (h : a ≤ b * 10 ^ j) :
    (10 : ℚ) ^ (-(j : ℤ)) * a ≤ b := by
  have hcast : (a : ℚ) ≤ b * 10 ^ j := by exact_mod_cast h
  rw [zpow_neg, zpow_natCast, inv_mul_le_iff₀ (by positivity)]
  linarith

/-- The exponent of the leading digit is not overestimated. -/
theorem Ratio.IsPos.ten_zpow_le {r : Ratio} (h : r.IsPos) :
    (10 : ℚ) ^ r.leadingExponent ≤ r.value := by
  have hden : (0 : ℚ) < r.den := by exact_mod_cast h.den
  rw [Ratio.value, le_div_iff₀ hden, leadingExponent]
  split
  · next hle =>
    obtain ⟨hpow, -⟩ := pow_length_toDigits (Nat.div_pos hle h.den)
    obtain ⟨j, hj⟩ := Nat.exists_eq_succ_of_ne_zero
      (Nat.ne_of_gt (Nat.length_toDigits_pos (b := 10) (n := r.num / r.den)))
    rw [hj, Nat.succ_sub_one, Nat.le_div_iff_mul_le h.den] at hpow
    rw [hj, Nat.cast_succ, add_sub_cancel_right, zpow_natCast]
    exact_mod_cast hpow
  · next hlt =>
    obtain ⟨-, hpow⟩ := pow_length_toDigits (Nat.div_pos (by omega : r.num ≤ r.den) h.num)
    obtain ⟨j, hj⟩ := Nat.exists_eq_succ_of_ne_zero
      (Nat.ne_of_gt (Nat.length_toDigits_pos (b := 10) (n := r.den / r.num)))
    rw [Nat.div_lt_iff_lt_mul h.num, hj] at hpow
    simp only [hj, Nat.succ_sub_one]
    split
    · next hle =>
      rw [show 1 - ((j.succ : ℕ) : ℤ) = -(j : ℤ) by omega]
      exact ten_zpow_neg_mul_le hle
    · exact ten_zpow_neg_mul_le (by rw [mul_comm]; exact hpow.le)

/-! ## Grids -/

variable {i : Interval} {unit : Ratio} {tie : Tie} {d : ℕ}

/-- A grid point is in the interval, with the ends if the interval has them. -/
theorem Interval.holds_iff (hu : unit.IsPos) : i.holds unit d = true ↔
    if i.closed then i.low * unit.value ≤ d ∧ d ≤ i.high * unit.value
    else i.low * unit.value < d ∧ d < i.high * unit.value := by
  have hden : (0 : ℚ) < unit.den := by exact_mod_cast hu.den
  rw [Ratio.value, ← mul_div_assoc, ← mul_div_assoc, div_le_iff₀ hden, le_div_iff₀ hden,
    div_lt_iff₀ hden, lt_div_iff₀ hden, Interval.holds]
  split
  · simp only [Bool.and_eq_true, decide_eq_true_eq]
    norm_cast
  · simp only [Bool.and_eq_true, decide_eq_true_eq]
    norm_cast

theorem Interval.holds_of_nearest? (h : i.nearest? tie unit = some d) : i.holds unit d = true := by
  unfold Interval.nearest? at h
  dsimp only at h
  split at h
  · next hbelow habove =>
    obtain rfl := Option.some.inj h
    split
    · exact hbelow
    · exact habove
  · next hbelow _ => exact Option.some.inj h ▸ hbelow
  · next _ habove => exact Option.some.inj h ▸ habove
  · cases h

/-- A grid with a point of the interval next to the value gives one. -/
theorem Interval.isSome_nearest? (h : i.holds unit (i.value * unit.num / unit.den) = true ∨
    i.holds unit (i.value * unit.num / unit.den + 1) = true) : (i.nearest? tie unit).isSome = true := by
  unfold Interval.nearest?
  dsimp only
  split
  · rfl
  · rfl
  · rfl
  · next hbelow habove => simp [hbelow, habove] at h

theorem Interval.holds_of_lt (hu : unit.IsPos) (hlow : i.low * unit.value < d)
    (hhigh : d < i.high * unit.value) : i.holds unit d = true := by
  rw [Interval.holds_iff hu]
  split
  · exact ⟨hlow.le, hhigh.le⟩
  · exact ⟨hlow, hhigh⟩

/-- **A fine grid meets the interval** next to the value. -/
theorem holds_neighbour {m : ℕ} {e : ℤ} (hd : IsDouble m e) (hu : unit.IsPos)
    (hfine : (10 : ℚ) ^ 16 ≤ m * (4 * unit.value)) :
    (Interval.of m e).holds unit (4 * m * unit.num / unit.den) = true ∨
    (Interval.of m e).holds unit (4 * m * unit.num / unit.den + 1) = true := by
  have hpos := hu.value
  obtain ⟨w, hw⟩ : ∃ w, 4 * m * unit.num / unit.den = w := ⟨_, rfl⟩
  have hfloor : (w : ℚ) ≤ 4 * m * unit.value ∧ 4 * m * unit.value < w + 1 := by
    have hden : (0 : ℚ) < unit.den := by exact_mod_cast hu.den
    rw [Ratio.value, ← mul_div_assoc, le_div_iff₀ hden, div_lt_iff₀ hden]
    constructor
    · exact_mod_cast (Nat.le_div_iff_mul_le hu.den).1 hw.ge
    · exact_mod_cast (Nat.div_lt_iff_lt_mul hu.den).1 (Nat.lt_succ_of_le hw.le)
  have hhigh := high_of m e
  -- Half the width of the interval above the value is two quarters; below it is one at least.
  obtain ⟨gap, hgap, hlowgap, hwide⟩ : ∃ gap : ℚ, 0 < gap ∧
      ((Interval.of m e).low : ℚ) = 4 * m - gap ∧ 1 < (gap + 2) * unit.value := by
    have hm := hd.pos
    have hsize : (m : ℚ) < 10 ^ 16 := by
      have hlt := hd.lt
      unfold hiddenBit at hlt
      exact_mod_cast (by omega : m < 10 ^ 16)
    by_cases hpower : m = hiddenBit ∧ e ≠ leastExponent
    · refine ⟨1, one_pos, ?_, ?_⟩
      · simp only [Interval.of, if_pos hpower]
        rw [Nat.cast_sub (by omega)]
        norm_num
      · have hcast : (m : ℚ) = 4503599627370496 := by exact_mod_cast hpower.1
        rw [hcast] at hfine
        norm_num at hfine ⊢
        linarith
    · refine ⟨2, two_pos, ?_, ?_⟩
      · simp only [Interval.of, if_neg hpower]
        rw [Nat.cast_sub (by omega)]
        norm_num
      · have hcast : (0 : ℚ) < m := by exact_mod_cast hm
        by_contra hle
        have hmul : (m : ℚ) * (4 * unit.value) ≤ m * 1 :=
          mul_le_mul_of_nonneg_left (by linarith) hcast.le
        linarith
  rw [hw]
  by_cases hnear : 4 * m * unit.value - w < gap * unit.value
  · left
    apply Interval.holds_of_lt hu
    · rw [hlowgap]
      linarith
    · rw [hhigh]
      linarith
  · right
    apply Interval.holds_of_lt hu
    · rw [hlowgap]
      push_cast
      nlinarith
    · rw [hhigh]
      push_cast
      linarith

/-! ## The search -/

/-- The quarters of a double over the grid of decimals with the exponent `k`. -/
def gridUnit (e k : ℤ) : Ratio := (Ratio.pow 2 (e - 2)).mul (Ratio.pow 10 (-k))

theorem isPos_gridUnit (e k : ℤ) : (gridUnit e k).IsPos :=
  (Ratio.isPos_pow (by norm_num) _).mul (Ratio.isPos_pow (by norm_num) _)

theorem value_gridUnit (e k : ℤ) : (gridUnit e k).value = 2 ^ (e - 2) * (10 : ℚ) ^ (-k) := by
  rw [gridUnit, Ratio.value_mul, Ratio.value_pow, Ratio.value_pow]
  norm_num

variable {m : ℕ} {e k : ℤ}

/-- Grid points in the interval are decimals in the interval. -/
theorem rounds_of_holds (h : (Interval.of m e).holds (gridUnit e k) d = true) :
    Rounds m e (d * 10 ^ k) := by
  rw [Interval.holds_iff (isPos_gridUnit e k), value_gridUnit] at h
  have htwo : (0 : ℚ) < 2 ^ (e - 2) := by positivity
  have hten : (0 : ℚ) < 10 ^ k := by positivity
  have hscale : ∀ a : ℚ, a * (2 ^ (e - 2) * 10 ^ (-k)) = a * 2 ^ (e - 2) / 10 ^ k := by
    intro a
    rw [zpow_neg, ← mul_assoc, div_eq_mul_inv]
  simp only [hscale] at h
  simp only [Rounds]
  split at h
  · next hclosed =>
    rw [if_pos hclosed, le_div_iff₀ htwo, div_le_iff₀ htwo]
    rw [div_le_iff₀ hten, le_div_iff₀ hten] at h
    exact h
  · next hopen =>
    rw [if_neg hopen, lt_div_iff₀ htwo, div_lt_iff₀ htwo]
    rw [div_lt_iff₀ hten, lt_div_iff₀ hten] at h
    exact h

/-- The exponent of the leading digit of a double. -/
def leadingOf (m : ℕ) (e : ℤ) : ℤ :=
  (Ratio.mul ⟨(Interval.of m e).value, 1⟩ (Ratio.pow 2 (e - 2))).leadingExponent

/-- What is found on the grid of decimals with a number of digits. -/
def onGrid (tie : Tie) (m : ℕ) (e : ℤ) (digits : ℕ) : Option Scientific :=
  let k := leadingOf m e + 1 - digits
  ((Interval.of m e).nearest? tie (gridUnit e k)).map fun d =>
    if d = 10 then ⟨1, k + 1⟩ else ⟨d, k⟩

theorem shortest_eq (tie : Tie) (m : ℕ) (e : ℤ) : shortest tie m e =
    ((List.range mostDigits).findSome? fun n => onGrid tie m e (n + 1)).getD ⟨m, 0⟩ := rfl

theorem ten_zpow_leadingOf_le (hm : 0 < m) (e : ℤ) : (10 : ℚ) ^ leadingOf m e ≤ m * 2 ^ e := by
  have hpos : (Ratio.mul ⟨(Interval.of m e).value, 1⟩ (Ratio.pow 2 (e - 2))).IsPos :=
    Ratio.IsPos.mul ⟨show 0 < 4 * m by omega, Nat.one_pos⟩ (Ratio.isPos_pow (by norm_num) _)
  refine hpos.ten_zpow_le.trans (le_of_eq ?_)
  rw [Ratio.value_mul, Ratio.value_pow, Ratio.value, zpow_sub₀ (by norm_num)]
  simp only [Interval.of]
  push_cast
  field_simp

theorem Rounds.pos {v : ℚ} (hm : 0 < m) (h : Rounds m e v) : 0 < v := by
  have hone : (1 : ℚ) ≤ m := by exact_mod_cast hm
  have hdiv : 0 < v / 2 ^ e := by linarith [(h.near hm).1]
  rw [← div_mul_cancel₀ v (ne_of_gt (by positivity : (0 : ℚ) < 2 ^ e))]
  positivity

theorem Rounds.significand_pos (hm : 0 < m) (h : Rounds m e (d * 10 ^ k)) : 0 < d := by
  have hpos := h.pos hm
  exact Nat.pos_of_ne_zero fun hzero => by simp [hzero] at hpos

theorem rounds_onGrid {n : ℕ} {s : Scientific} (h : onGrid tie m e n = some s) :
    Rounds m e (s.significand * 10 ^ s.exponent) := by
  obtain ⟨d, hnearest, rfl⟩ := Option.map_eq_some_iff.1 h
  have hround := rounds_of_holds (Interval.holds_of_nearest? hnearest)
  split
  · next hten =>
    subst hten
    rw [zpow_add_one₀ (by norm_num), Nat.cast_one, one_mul, mul_comm]
    exact hround
  · exact hround

theorem isSome_onGrid (hd : IsDouble m e) : (onGrid tie m e mostDigits).isSome = true := by
  rw [onGrid, Option.isSome_map]
  refine Interval.isSome_nearest? (holds_neighbour hd (isPos_gridUnit _ _) ?_)
  have hle := ten_zpow_leadingOf_le hd.pos e
  have hten : (0 : ℚ) < 10 ^ leadingOf m e := by positivity
  have hvalue : (m : ℚ) * (4 * (gridUnit e (leadingOf m e + 1 - (mostDigits : ℕ))).value) =
      m * 2 ^ e * 10 ^ 16 / 10 ^ leadingOf m e := by
    rw [value_gridUnit, zpow_sub₀ (by norm_num),
      show -(leadingOf m e + 1 - (mostDigits : ℕ)) = 16 - leadingOf m e by
        unfold mostDigits
        omega, zpow_sub₀ (by norm_num)]
    field_simp
    norm_num
  rw [hvalue, le_div_iff₀ hten, mul_comm]
  gcongr

/-- **The shortest decimal lies in the interval of the double.** -/
theorem rounds_shortest (hd : IsDouble m e) (tie : Tie) :
    Rounds m e ((shortest tie m e).significand * 10 ^ (shortest tie m e).exponent) := by
  obtain ⟨s, hs⟩ : ∃ s,
      ((List.range mostDigits).findSome? fun n => onGrid tie m e (n + 1)) = some s := by
    rw [← Option.isSome_iff_exists, List.isSome_findSome?, List.any_eq_true]
    exact ⟨16, by decide, isSome_onGrid hd⟩
  rw [shortest_eq, hs, Option.getD_some]
  obtain ⟨n, -, hn⟩ := List.exists_of_findSome?_eq_some hs
  exact rounds_onGrid hn

end GeoScript.Decimal
