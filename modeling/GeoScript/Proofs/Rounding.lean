import GeoScript.Decimal.Shortest
import GeoScript.Proofs.Doubles

/-!
# Rounding to a double

**What rounding knows.** The result of an operation is handed over as a mantissa with an exponent,
together with where the exact value lies between this mantissa and the next one: two bits say
whether it is the mantissa, the middle, or on which side of the middle (`Stands`). Shifting the
mantissa to the right keeps this up.

**Theorem (`roundWithAccuracy_eq`).** A value in the interval of a double, as the search for its
shortest text defines it, is rounded to that double. Just below a power of two the value is first
rounded up to a mantissa that is one bit too long; the narrower lower half of the interval makes up
for the denser doubles there.
-/

namespace GeoScript.Decimal

open Float.Model Float.Model.UnpackedFloat

/-! ## Residual bits -/

/-- The mantissa with its residual bits stands for the value `v`. -/
def Stands (em : ExtendedMantissa) (v : ℚ) : Prop :=
  match em.roundBit, em.stickyBit with
  | false, false => v = em.mantissa
  | false, true => em.mantissa < v ∧ v < em.mantissa + 1 / 2
  | true, false => v = em.mantissa + 1 / 2
  | true, true => em.mantissa + 1 / 2 < v ∧ v < em.mantissa + 1

namespace Stands

variable {em : ExtendedMantissa} {v : ℚ}

theorem bounds (h : Stands em v) : em.mantissa ≤ v ∧ v < em.mantissa + 1 := by
  rcases em with ⟨m, r, s⟩
  cases r <;> cases s <;> simp only [Stands] at h ⊢ <;> constructor <;> linarith

theorem shiftRightOne (h : Stands em v) : Stands em.shiftRightOne (v / 2) := by
  rcases em with ⟨m, r, s⟩
  have hdiv : (m : ℚ) = 2 * (m / 2 : ℕ) + (m % 2 : ℕ) := by
    exact_mod_cast (Nat.div_add_mod m 2).symm
  rcases Nat.mod_two_eq_zero_or_one m with hm | hm <;> rw [hm] at hdiv <;> push_cast at hdiv <;>
    cases r <;> cases s <;>
    simp [Stands, ExtendedMantissa.shiftRightOne, hm] at h ⊢ <;>
    first | linarith | (constructor <;> linarith)

theorem shiftRight (h : Stands em v) (k : ℕ) : Stands (em >>> k) (v / 2 ^ k) := by
  show Stands (k.repeat ExtendedMantissa.shiftRightOne em) (v / 2 ^ k)
  induction k with
  | zero => simpa [Nat.repeat] using h
  | succ k ih =>
    rw [Nat.repeat, pow_succ, ← div_div]
    exact ih.shiftRightOne

/-- The nearest mantissa is taken, and of two the even one. -/
theorem roundedMantissa (h : Stands em v) {n : ℕ} (hlow : (n : ℚ) - 1 / 2 ≤ v)
    (hhigh : v ≤ n + 1 / 2) (hodd : n % 2 = 1 → (n : ℚ) - 1 / 2 < v ∧ v < n + 1 / 2) :
    em.roundedMantissa = n := by
  rcases em with ⟨m, r, s⟩
  -- Comparisons of whole numbers that differ by less than one decide between them.
  have hle : ∀ a b : ℕ, (a : ℚ) < b + 1 → a ≤ b := fun a b hab =>
    Nat.lt_succ_iff.1 (by exact_mod_cast hab)
  have hup := hle n m
  have hdown := hle m n
  have hnext := hle (m + 1) n
  have hafter := hle n (m + 1)
  push_cast at hnext hafter
  cases r <;> cases s <;> simp only [Stands] at h
  · show m = n
    exact Nat.le_antisymm (hdown (by linarith)) (hup (by linarith))
  · show m = n
    exact Nat.le_antisymm (hdown (by linarith)) (hup (by linarith))
  · show m + m % 2 = n
    have hmn := hdown (by linarith)
    have hnm := hafter (by linarith)
    rcases Nat.eq_or_lt_of_le hmn with rfl | hlt
    · have heven : m % 2 ≠ 1 := fun hm => absurd (hodd hm).2 (by linarith)
      omega
    · obtain rfl : n = m + 1 := by omega
      have heven : (m + 1) % 2 ≠ 1 := fun hm => absurd (hodd hm).1 (by push_cast; linarith)
      omega
  · show m + 1 = n
    exact Nat.le_antisymm (hnext (by linarith)) (hafter (by linarith))

end Stands

/-! ## The interval of a double -/

/-- The value is in the interval of reals that round to a double. -/
def Rounds (m : ℕ) (e : ℤ) (v : ℚ) : Prop :=
  let i := Interval.of m e
  let quarters := v / 2 ^ (e - 2)
  if i.closed then (i.low : ℚ) ≤ quarters ∧ quarters ≤ i.high
  else (i.low : ℚ) < quarters ∧ quarters < i.high

variable {m : ℕ} {e : ℤ} {v : ℚ}

theorem quarters_eq (v : ℚ) (e : ℤ) : v / 2 ^ (e - 2) = 4 * (v / 2 ^ e) := by
  rw [zpow_sub₀ (by norm_num)]
  field_simp
  norm_num

theorem high_of (m : ℕ) (e : ℤ) : ((Interval.of m e).high : ℚ) = 4 * m + 2 := by
  simp [Interval.of]

theorem low_of (hm : 0 < m) (e : ℤ) : (4 : ℚ) * m - 2 ≤ (Interval.of m e).low := by
  have hle : 4 * m - 2 ≤ (Interval.of m e).low := by
    simp only [Interval.of]
    split <;> omega
  have hcast : ((4 * m - 2 : ℕ) : ℚ) = 4 * m - 2 := by
    rw [Nat.cast_sub (by omega)]
    norm_num
  rw [← hcast]
  exact_mod_cast hle

/-- Values in the interval are at most half a place away, and less if the mantissa is odd. -/
theorem Rounds.near (hm : 0 < m) (h : Rounds m e v) : (m : ℚ) - 1 / 2 ≤ v / 2 ^ e ∧
    v / 2 ^ e ≤ m + 1 / 2 ∧ (m % 2 = 1 → (m : ℚ) - 1 / 2 < v / 2 ^ e ∧ v / 2 ^ e < m + 1 / 2) := by
  have hlow := low_of hm e
  simp only [Rounds, quarters_eq, high_of] at h
  have hclosed : (Interval.of m e).closed = decide (m % 2 = 0) := rfl
  by_cases heven : m % 2 = 0
  · rw [hclosed, if_pos (by simpa using heven)] at h
    exact ⟨by linarith, by linarith, fun hodd => by omega⟩
  · rw [hclosed, if_neg (by simpa using heven)] at h
    exact ⟨by linarith, by linarith, fun _ => ⟨by linarith, by linarith⟩⟩

/-- Just above a power of two the interval reaches down only a quarter of a place. -/
theorem Rounds.above_power (h : Rounds hiddenBit e v) (he : e ≠ leastExponent) :
    (hiddenBit : ℚ) - 1 / 4 ≤ v / 2 ^ e := by
  have hlow : ((Interval.of hiddenBit e).low : ℚ) = 4 * hiddenBit - 1 := by
    simp only [Interval.of, he, ne_eq, not_false_eq_true, and_self, if_true]
    norm_num [hiddenBit]
  simp only [Rounds, quarters_eq, hlow] at h
  have hclosed : (Interval.of hiddenBit e).closed = true := rfl
  rw [hclosed, if_pos rfl] at h
  linarith [h.1]

/-! ## Shifting and rounding -/

/-- Where the mantissa and its exponent are shifted to: 53 bits, or the least exponent. -/
theorem targetExponent_eq (M : ℕ) (E : ℤ) :
    Format.binary64.targetExponent (totalExponent M E) = max (M.log2 + E - 52) leastExponent := by
  simp only [Format.targetExponent, totalExponent, Format.mantissaBits, Format.minExponent,
    leastExponent]
  norm_num
  omega

theorem mantissa_ofMantissaAndAccuracy (M : ℕ) (a : Accuracy) :
    (ExtendedMantissa.ofMantissaAndAccuracy M a).mantissa = M := by
  cases a with
  | exact => rfl
  | inexact o => cases o <;> rfl

theorem mantissa_shiftRight (em : ExtendedMantissa) (k : ℕ) :
    (em >>> k).mantissa = em.mantissa / 2 ^ k := by
  show (k.repeat ExtendedMantissa.shiftRightOne em).mantissa = _
  induction k with
  | zero => simp [Nat.repeat]
  | succ k ih => rw [Nat.repeat, ExtendedMantissa.shiftRightOne, ih, Nat.div_div_eq_div_mul, pow_succ]

/-- A mantissa that fits stays as it is. -/
theorem shiftToTargetExponent_of_lt {r : ℕ} {T : ℤ} (hr : r < 2 * hiddenBit)
    (hT : leastExponent ≤ T) :
    shiftToTargetExponent .binary64 r T .exact = (⟨r, false, false⟩, T) := by
  have hlog : r.log2 ≤ 52 := by
    by_cases h : r = 0
    · simp [h]
    · exact Nat.lt_succ_iff.1 ((Nat.log2_lt h).2 hr)
  have hzero : (max (r.log2 + T - 52) leastExponent - T).toNat = 0 := by omega
  rw [shiftToTargetExponent, targetExponent_eq, shiftToExponent, hzero]
  simp [HShiftRight.hShiftRight, Nat.repeat, ExtendedMantissa.ofMantissaAndAccuracy]

/-- A mantissa that is one too large is halved. -/
theorem shiftToTargetExponent_of_eq {T : ℤ} (hT : leastExponent ≤ T) :
    shiftToTargetExponent .binary64 (2 * hiddenBit) T .exact =
      (⟨hiddenBit, false, false⟩, T + 1) := by
  have hlog : (2 * hiddenBit).log2 = 53 := by decide +kernel
  have hone : (max ((2 * hiddenBit).log2 + T - 52) leastExponent - T).toNat = 1 := by
    rw [hlog]
    omega
  rw [shiftToTargetExponent, targetExponent_eq, shiftToExponent, hone]
  rfl

variable {M : ℕ} {E : ℤ} {a : Accuracy}

/-- Shifting gives a mantissa of 53 bits, or of fewer if the exponent is the least one. -/
theorem shiftToTargetExponent_spec
    (hv : Stands (ExtendedMantissa.ofMantissaAndAccuracy M a) (v / 2 ^ E))
    (hbits : 52 ≤ M.log2 ∨ E ≤ leastExponent) :
    ∃ em T, shiftToTargetExponent .binary64 M E a = (em, T) ∧ leastExponent ≤ T ∧
      Stands em (v / 2 ^ T) ∧ v / 2 ^ T < 2 * hiddenBit ∧
      (hiddenBit ≤ v / 2 ^ T ∨ T = leastExponent) := by
  obtain ⟨k, hk⟩ : ∃ k : ℕ, max (M.log2 + E - 52) leastExponent = E + k :=
    ⟨(max (M.log2 + E - 52) leastExponent - E).toNat, by omega⟩
  have hshift : (E + k - E).toNat = k := by omega
  have hstands : Stands (ExtendedMantissa.ofMantissaAndAccuracy M a >>> k) (v / 2 ^ (E + k)) := by
    have h := hv.shiftRight k
    rwa [div_div, ← zpow_natCast, ← zpow_add₀ (by norm_num)] at h
  have hmantissa : (ExtendedMantissa.ofMantissaAndAccuracy M a >>> k).mantissa = M / 2 ^ k := by
    rw [mantissa_shiftRight, mantissa_ofMantissaAndAccuracy]
  have hbounds := hstands.bounds
  rw [hmantissa] at hbounds
  refine ⟨_, E + k, ?_, by omega, hstands, ?_, ?_⟩
  · rw [shiftToTargetExponent, targetExponent_eq, hk, shiftToExponent, hshift]
  · have hlt : M / 2 ^ k < 2 * hiddenBit := by
      rw [Nat.div_lt_iff_lt_mul (by positivity)]
      calc M < 2 ^ (M.log2 + 1) := Nat.lt_log2_self
        _ ≤ 2 ^ (53 + k) := Nat.pow_le_pow_right (by norm_num) (by omega)
        _ = 2 * hiddenBit * 2 ^ k := by rw [pow_add]; rfl
    have hle : ((M / 2 ^ k : ℕ) : ℚ) + 1 ≤ 2 * hiddenBit := by exact_mod_cast hlt
    linarith
  · by_cases hT : E + k = leastExponent
    · exact .inr hT
    · left
      have hlog : M.log2 = 52 + k := by omega
      have hle : hiddenBit ≤ M / 2 ^ k := by
        rw [Nat.le_div_iff_mul_le (by positivity)]
        calc hiddenBit * 2 ^ k = 2 ^ (52 + k) := by rw [pow_add]; rfl
          _ = 2 ^ M.log2 := by rw [hlog]
          _ ≤ M := Nat.log2_self_le (fun h => by simp [h] at hlog; omega)
      have hcast : (hiddenBit : ℚ) ≤ (M / 2 ^ k : ℕ) := by exact_mod_cast hle
      linarith

/-- Once the mantissa is rounded, it fits, or it is one too large. -/
theorem roundWithAccuracy_of_shift {s : Sign} {em : ExtendedMantissa} {T : ℤ}
    (hshift : shiftToTargetExponent .binary64 M E a = (em, T)) (hT : leastExponent ≤ T)
    (hpos : 0 < em.roundedMantissa) :
    (em.roundedMantissa < 2 * hiddenBit →
      roundWithAccuracy .binary64 s M E a = .finite s em.roundedMantissa T hpos) ∧
    (em.roundedMantissa = 2 * hiddenBit →
      roundWithAccuracy .binary64 s M E a = .finite s hiddenBit (T + 1) (by decide)) := by
  constructor
  · intro hlt
    rw [roundWithAccuracy, hshift]
    simp only [shiftToTargetExponent_of_lt hlt hT, Nat.ne_of_gt hpos, dif_neg, not_false_eq_true]
  · intro heq
    rw [roundWithAccuracy, hshift]
    simp only [heq, shiftToTargetExponent_of_eq hT]
    rfl

theorem div_zpow_add (v : ℚ) (T : ℤ) (d : ℕ) : v / 2 ^ (T + d) = v / 2 ^ T / 2 ^ d := by
  rw [zpow_add₀ (by norm_num), zpow_natCast, div_div]

/-- **Rounding finds the double** in whose interval the value lies. -/
theorem roundWithAccuracy_eq (hd : IsDouble m e) (hround : Rounds m e v)
    (hv : Stands (ExtendedMantissa.ofMantissaAndAccuracy M a) (v / 2 ^ E))
    (hbits : 52 ≤ M.log2 ∨ E ≤ leastExponent) (s : Sign) :
    roundWithAccuracy .binary64 s M E a = .finite s m e hd.pos := by
  obtain ⟨em, T, hshift, hT, hem, hlt, hge⟩ := shiftToTargetExponent_spec hv hbits
  obtain ⟨hlow, hhigh, hodd⟩ := hround.near hd.pos
  have hsize : (m : ℚ) + 1 ≤ 2 * hiddenBit := by exact_mod_cast hd.lt
  rcases lt_trichotomy T e with hTe | rfl | hTe
  · -- The value lies below the power of two that the double is, and was shifted one place less.
    have hnormal : hiddenBit ≤ m := hd.normal.resolve_right (by omega)
    have hcast : (hiddenBit : ℚ) ≤ m := by exact_mod_cast hnormal
    have hbit : (1 : ℚ) < hiddenBit := by norm_num [hiddenBit]
    obtain ⟨d, rfl⟩ : ∃ d : ℕ, e = T + (d + 1 : ℕ) := ⟨(e - T - 1).toNat, by omega⟩
    rw [div_zpow_add, le_div_iff₀ (by positivity)] at hlow
    obtain rfl : d = 0 := by
      by_contra hne
      have hpow : (2 : ℚ) ^ 2 ≤ 2 ^ (d + 1) :=
        pow_le_pow_right₀ (by norm_num) (by omega)
      nlinarith
    have heq : m = hiddenBit := by
      have hmle : m < hiddenBit + 1 := by
        have : (m : ℚ) < hiddenBit + 1 := by linarith
        exact_mod_cast this
      omega
    subst heq
    have hpower := hround.above_power (by omega)
    rw [div_zpow_add, le_div_iff₀ (by positivity)] at hpower
    have hr : em.roundedMantissa = 2 * hiddenBit :=
      hem.roundedMantissa (by push_cast; linarith) (by push_cast; linarith)
        fun h => absurd h (by decide)
    exact (roundWithAccuracy_of_shift (s := s) hshift hT (by rw [hr]; decide)).2 hr
  · have hr : em.roundedMantissa = m := hem.roundedMantissa hlow hhigh hodd
    have h := (roundWithAccuracy_of_shift (s := s) hshift hT (hr ▸ hd.pos)).1 (hr ▸ hd.lt)
    rw [h]
    simp only [hr]
  · -- A value that has 53 bits over a larger exponent is above the interval.
    have hnormal : (hiddenBit : ℚ) ≤ v / 2 ^ T := hge.resolve_right (by have := hd.least; omega)
    obtain ⟨d, rfl⟩ : ∃ d : ℕ, T = e + (d + 1 : ℕ) := ⟨(T - e - 1).toNat, by omega⟩
    rw [div_zpow_add, le_div_iff₀ (by positivity)] at hnormal
    have hpow : (2 : ℚ) ≤ 2 ^ (d + 1) := by
      rw [pow_succ]
      linarith [one_le_pow₀ (show (1 : ℚ) ≤ 2 by norm_num) (n := d)]
    have hpos : (0 : ℚ) < hiddenBit := by norm_num [hiddenBit]
    nlinarith

/-! ## Products and quotients -/

variable {m₁ m₂ : ℕ} {e₁ e₂ : ℤ}

theorem stands_exact (M : ℕ) : Stands (ExtendedMantissa.ofMantissaAndAccuracy M .exact) M := rfl

/-- A product is rounded once, from its exact value. -/
theorem mul_eq (hd : IsDouble m e) (h₁ : 0 < m₁) (h₂ : 0 < m₂) (hbits : hiddenBit ≤ m₁)
    (hround : Rounds m e (m₁ * 2 ^ e₁ * (m₂ * 2 ^ e₂))) :
    UnpackedFloat.mul .binary64 (.finite .positive m₁ e₁ h₁) (.finite .positive m₂ e₂ h₂) =
      .finite .positive m e hd.pos := by
  refine roundWithAccuracy_eq hd hround ?_ (.inl ?_) .positive
  · have hvalue : (m₁ : ℚ) * 2 ^ e₁ * (m₂ * 2 ^ e₂) / 2 ^ (e₁ + e₂) = (m₁ * m₂ : ℕ) := by
      rw [zpow_add₀ (by norm_num)]
      push_cast
      field_simp
    rw [hvalue]
    exact stands_exact _
  · rw [Nat.le_log2 (by positivity)]
    exact hbits.trans (Nat.le_mul_of_pos_right m₁ h₂)

/-- The quotient of two natural numbers, and how far it is from the exact one. -/
theorem stands_fraction {p q : ℕ} (hq : 0 < q) :
    Stands (ExtendedMantissa.ofMantissaAndAccuracy (p / q) (accuracyOfFraction (p % q) q))
      (p / q : ℚ) := by
  have hposq : (0 : ℚ) < q := by exact_mod_cast hq
  have hlt : ((p % q : ℕ) : ℚ) < q := by exact_mod_cast Nat.mod_lt p hq
  have hvalue : (p : ℚ) / q = (p / q : ℕ) + (p % q : ℕ) / q := by
    have hp : (p : ℚ) = q * (p / q : ℕ) + (p % q : ℕ) := by exact_mod_cast (Nat.div_add_mod p q).symm
    rw [hp]
    field_simp
  rw [hvalue, accuracyOfFraction]
  by_cases hr : p % q = 0
  · rw [if_pos hr, hr]
    simpa using stands_exact (p / q)
  · have hpos : (0 : ℚ) < (p % q : ℕ) := by exact_mod_cast Nat.pos_of_ne_zero hr
    have hupper : ((p % q : ℕ) : ℚ) / q < 1 := (div_lt_one hposq).2 hlt
    rw [if_neg hr]
    rcases hcmp : compare (2 * (p % q)) q with _ | _ | _
    · have hhalf : (2 : ℚ) * (p % q : ℕ) < q := by exact_mod_cast Nat.compare_eq_lt.1 hcmp
      have hdiv : ((p % q : ℕ) : ℚ) / q < 1 / 2 := by rw [div_lt_iff₀ hposq]; linarith
      show ((p / q : ℕ) : ℚ) < _ ∧ _ < ((p / q : ℕ) : ℚ) + 1 / 2
      exact ⟨by linarith [div_pos hpos hposq], by linarith⟩
    · have hhalf : (2 : ℚ) * (p % q : ℕ) = q := by exact_mod_cast Nat.compare_eq_eq.1 hcmp
      have hdiv : ((p % q : ℕ) : ℚ) / q = 1 / 2 := by rw [div_eq_iff (ne_of_gt hposq)]; linarith
      show _ + _ = _ + (1 / 2 : ℚ)
      rw [hdiv]
      rfl
    · have hhalf : (q : ℚ) < 2 * (p % q : ℕ) := by exact_mod_cast Nat.compare_eq_gt.1 hcmp
      have hdiv : 1 / 2 < ((p % q : ℕ) : ℚ) / q := by rw [lt_div_iff₀ hposq]; linarith
      show ((p / q : ℕ) : ℚ) + 1 / 2 < _ ∧ _ < ((p / q : ℕ) : ℚ) + 1
      exact ⟨by linarith, by linarith⟩

/-- The quotient is computed to 53 bits at least, or down to the least exponent. -/
theorem divCore_spec (h₁ : 0 < m₁) (h₂ : 0 < m₂) (e₁ e₂ : ℤ) :
    ∃ M E a, divCore .binary64 m₁ e₁ m₂ e₂ = (M, E, a) ∧
      Stands (ExtendedMantissa.ofMantissaAndAccuracy M a) (m₁ * 2 ^ e₁ / (m₂ * 2 ^ e₂) / 2 ^ E) ∧
      (52 ≤ M.log2 ∨ E ≤ leastExponent) := by
  have htarget : Format.binary64.targetExponent (totalExponent m₁ e₁ - totalExponent m₂ e₂) =
      max (m₁.log2 + e₁ - (m₂.log2 + e₂) - 53) leastExponent := by
    simp only [Format.targetExponent, totalExponent, Format.mantissaBits, Format.minExponent,
      leastExponent]
    norm_num
    omega
  obtain ⟨E, hE⟩ : ∃ E, min (e₁ - e₂) (max (m₁.log2 + e₁ - (m₂.log2 + e₂) - 53) leastExponent) = E :=
    ⟨_, rfl⟩
  obtain ⟨k, hk⟩ : ∃ k : ℕ, e₁ - e₂ = E + k := ⟨(e₁ - e₂ - E).toNat, by omega⟩
  have hshift : (e₁ - e₂ - E).toNat = k := by omega
  refine ⟨(m₁ <<< k) / m₂, E, accuracyOfFraction ((m₁ <<< k) % m₂) m₂, ?_, ?_, ?_⟩
  · rw [divCore, htarget, hE, hshift]
  · have hvalue : (m₁ : ℚ) * 2 ^ e₁ / (m₂ * 2 ^ e₂) / 2 ^ E = (m₁ <<< k : ℕ) / m₂ := by
      rw [show e₁ = e₂ + E + k by omega, zpow_add₀ (by norm_num), zpow_add₀ (by norm_num),
        Nat.shiftLeft_eq, zpow_natCast]
      push_cast
      field_simp
    rw [hvalue]
    exact stands_fraction h₂
  · by_cases hleast : E ≤ leastExponent
    · exact .inr hleast
    · left
      have hlog : 53 + m₂.log2 ≤ m₁.log2 + k := by omega
      have hle : 2 ^ 52 ≤ m₁ <<< k / m₂ := by
        rw [Nat.le_div_iff_mul_le h₂, Nat.shiftLeft_eq]
        calc 2 ^ 52 * m₂ ≤ 2 ^ 52 * 2 ^ (m₂.log2 + 1) := by
              gcongr
              exact Nat.le_of_lt Nat.lt_log2_self
          _ = 2 ^ (53 + m₂.log2) := by rw [← pow_add]; congr 1; omega
          _ ≤ 2 ^ (m₁.log2 + k) := Nat.pow_le_pow_right (by norm_num) hlog
          _ = 2 ^ m₁.log2 * 2 ^ k := pow_add _ _ _
          _ ≤ m₁ * 2 ^ k := by
              gcongr
              exact Nat.log2_self_le (Nat.ne_of_gt h₁)
      rwa [Nat.le_log2 (by omega)]

/-- A quotient is rounded once, from its exact value. -/
theorem div_eq (hd : IsDouble m e) (h₁ : 0 < m₁) (h₂ : 0 < m₂)
    (hround : Rounds m e (m₁ * 2 ^ e₁ / (m₂ * 2 ^ e₂))) :
    UnpackedFloat.div .binary64 (.finite .positive m₁ e₁ h₁) (.finite .positive m₂ e₂ h₂) =
      .finite .positive m e hd.pos := by
  obtain ⟨M, E, a, hcore, hstands, hbits⟩ := divCore_spec h₁ h₂ e₁ e₂
  rw [UnpackedFloat.div, hcore]
  exact roundWithAccuracy_eq hd hround hstands hbits .positive

/-! ## Decimals -/

theorem rounds_self (hm : 0 < m) (e : ℤ) : Rounds m e (m * 2 ^ e) := by
  have hlt : (Interval.of m e).low < 4 * m := by
    simp only [Interval.of]
    split <;> omega
  have hlow : ((Interval.of m e).low : ℚ) < 4 * m := by exact_mod_cast hlt
  have hvalue : (m : ℚ) * 2 ^ e / 2 ^ e = m := by field_simp
  simp only [Rounds, quarters_eq, high_of, hvalue]
  split
  · exact ⟨by linarith, by linarith⟩
  · exact ⟨by linarith, by linarith⟩

/-- The double with the value of a natural number of at most 53 bits. -/
theorem unpack_toFloat {d : ℕ} (hpos : 0 < d) (hlt : d < 2 * hiddenBit) :
    ∃ m e, ∃ h : 0 < m, d.toUInt64.toFloat.toModel.unpack = .finite .positive m e h ∧
      hiddenBit ≤ m ∧ (d : ℚ) = m * 2 ^ e := by
  have hlog : d.log2 ≤ 52 := Nat.lt_succ_iff.1 ((Nat.log2_lt (Nat.ne_of_gt hpos)).2 hlt)
  obtain ⟨k, hk⟩ : ∃ k : ℕ, d.log2 + k = 52 := ⟨52 - d.log2, by omega⟩
  have hge : hiddenBit ≤ d <<< k := by
    rw [Nat.shiftLeft_eq]
    calc hiddenBit = 2 ^ d.log2 * 2 ^ k := by rw [← pow_add, hk]; rfl
      _ ≤ d * 2 ^ k := by gcongr; exact Nat.log2_self_le (Nat.ne_of_gt hpos)
  have hle : d <<< k < 2 * hiddenBit := by
    rw [Nat.shiftLeft_eq]
    calc d * 2 ^ k < 2 ^ (d.log2 + 1) * 2 ^ k := by gcongr; exact Nat.lt_log2_self
      _ = 2 * hiddenBit := by rw [← pow_add, show d.log2 + 1 + k = 53 by omega]; rfl
  have hd : IsDouble (d <<< k) (-k) := by
    refine ⟨by unfold hiddenBit at hge; omega, hle, ?_, by omega, .inl hge⟩
    unfold leastExponent
    omega
  have hround : UnpackedFloat.ofUInt64 .binary64 d.toUInt64 =
      .finite .positive (d <<< k) (-k) hd.pos := by
    have hnat : d.toUInt64.toNat = d :=
      UInt64.toNat_ofNat_of_lt (by unfold hiddenBit at hlt; simp [UInt64.size]; omega)
    have hcmp : compare (d : ℤ) 0 = .gt := by
      rw [compare_gt_iff_gt]
      omega
    have htarget : (0 - max ((d.log2 : ℤ) + 0 - 52) leastExponent).toNat = k := by
      unfold leastExponent
      omega
    rw [UnpackedFloat.ofUInt64, UnpackedFloat.ofNat, UnpackedFloat.ofInt, UnpackedFloat.normalize,
      hnat, hcmp]
    simp only [Int.toNat_natCast, UnpackedFloat.round, targetExponent_eq, decreaseExponent, htarget]
    rw [zero_sub]
    refine roundWithAccuracy_eq hd (rounds_self hd.pos _) ?_ (.inl ?_) .positive
    · rw [mul_div_cancel_right₀ _ (by positivity)]
      exact stands_exact _
    · rw [log2_of_normal hge hle]
  refine ⟨d <<< k, -k, hd.pos, ?_, hge, ?_⟩
  · show (Float.Model.pack (UnpackedFloat.ofUInt64 .binary64 d.toUInt64)).unpack = _
    rw [hround]
    exact unpack_pack_finite .positive hd
  · rw [Nat.shiftLeft_eq, zpow_neg, zpow_natCast]
    push_cast
    field_simp

/-- Whether a double is exactly a power of ten, in the range of the table. -/
def isPowerOfTen (k : ℕ) (x : Float) : Bool :=
  match x.toModel.unpack with
  | .finite .positive m e _ => -52 ≤ e && m * 2 ^ (e + 52).toNat == 10 ^ k * 2 ^ 52
  | _ => false

theorem isPowerOfTen_table :
    ∀ k : Fin 23, (Float.exactlyRepresentablePowersOfTen[k.val]?).all (isPowerOfTen k) = true := by
  decide +kernel

theorem unpack_powerOfTen {k : ℕ} (hk : k < Float.exactlyRepresentablePowersOfTen.size) :
    ∃ m e, ∃ h : 0 < m, Float.exactlyRepresentablePowersOfTen[k].toModel.unpack =
      .finite .positive m e h ∧ (10 : ℚ) ^ k = m * 2 ^ e := by
  have hcheck := isPowerOfTen_table ⟨k, hk⟩
  simp only [Array.getElem?_eq_getElem hk, Option.all_some, isPowerOfTen] at hcheck
  split at hcheck
  · next m e h hunpack =>
    refine ⟨m, e, h, hunpack, ?_⟩
    simp only [Bool.and_eq_true, decide_eq_true_eq, beq_iff_eq] at hcheck
    obtain ⟨j, hj⟩ : ∃ j : ℕ, e = j - 52 := ⟨(e + 52).toNat, by omega⟩
    have heq : (m : ℚ) * 2 ^ j = 10 ^ k * 2 ^ 52 := by
      rw [hj, show ((j : ℤ) - 52 + 52).toNat = j by omega] at hcheck
      exact_mod_cast hcheck.2
    rw [hj, zpow_sub₀ (by norm_num), zpow_natCast]
    field_simp
    exact heq.symm
  · cases hcheck

/-- The values in the interval of a double are neither too small nor too large. -/
theorem Rounds.range (hd : IsDouble m e) (h : Rounds m e v) :
    (2 : ℚ) ^ (-1075 : ℤ) ≤ v ∧ v ≤ 2 ^ (1024 : ℤ) := by
  obtain ⟨hlow, hhigh, -⟩ := h.near hd.pos
  have hpos : (0 : ℚ) < 2 ^ e := by positivity
  rw [le_div_iff₀ hpos] at hlow
  rw [div_le_iff₀ hpos] at hhigh
  have hone : (1 : ℚ) ≤ m := by exact_mod_cast hd.pos
  have hsize : (m : ℚ) + 1 ≤ 2 ^ (53 : ℤ) := by
    have hlt : (m : ℚ) + 1 ≤ 2 * hiddenBit := by exact_mod_cast hd.lt
    norm_num [hiddenBit] at hlt ⊢
    exact hlt
  constructor
  · have hleast : (2 : ℚ) ^ (-1074 : ℤ) ≤ 2 ^ e := zpow_le_zpow_right₀ (by norm_num) hd.least
    calc (2 : ℚ) ^ (-1075 : ℤ) = 2 ^ (-1 : ℤ) * 2 ^ (-1074 : ℤ) := by
          rw [← zpow_add₀ (by norm_num)]
          rfl
      _ = 1 / 2 * 2 ^ (-1074 : ℤ) := by norm_num
      _ ≤ (m - 1 / 2) * 2 ^ e := by
          apply mul_le_mul (by linarith) hleast (by positivity) (by linarith)
      _ ≤ v := hlow
  · have hmost : (2 : ℚ) ^ e ≤ 2 ^ (971 : ℤ) := zpow_le_zpow_right₀ (by norm_num) hd.most
    calc v ≤ (m + 1 / 2) * 2 ^ e := hhigh
      _ ≤ 2 ^ (53 : ℤ) * 2 ^ (971 : ℤ) :=
          mul_le_mul (by linarith) hmost hpos.le (by positivity)
      _ = 2 ^ (1024 : ℤ) := by
          rw [← zpow_add₀ (by norm_num)]
          rfl

theorem two_zpow_le_ten_zpow {k : ℤ} (hk : 0 ≤ k) : (2 : ℚ) ^ (3 * k) ≤ 10 ^ k := by
  rw [zpow_mul]
  exact zpow_le_zpow_left₀ hk (by norm_num) (by norm_num)

theorem ten_zpow_le_two_zpow {k : ℤ} (hk : k ≤ 0) : (10 : ℚ) ^ k ≤ 2 ^ (3 * k) := by
  have hten := two_zpow_le_ten_zpow (k := -k) (by omega)
  rw [mul_neg, zpow_neg, zpow_neg] at hten
  exact (inv_le_inv₀ (by positivity) (by positivity)).1 hten

theorem lt_two_zpow (d : ℕ) : (d : ℚ) < 2 ^ ((d.log2 : ℤ) + 1) := by
  exact_mod_cast Nat.lt_log2_self (n := d)

/-- Decimals in the interval of a double have exponents for which powers of ten are computed. -/
theorem Rounds.exponent (hd : IsDouble m e) {d : ℕ} (hpos : 0 < d) {k : ℤ}
    (h : Rounds m e (d * 10 ^ k)) : k ≤ 2048 ∧ -(2048 + d.log2 : ℤ) ≤ k := by
  obtain ⟨hlow, hhigh⟩ := h.range hd
  have hone : (1 : ℚ) ≤ d := by exact_mod_cast hpos
  constructor
  · by_contra hk
    have hten := two_zpow_le_ten_zpow (k := k) (by omega)
    have hmono : (2 : ℚ) ^ (1025 : ℤ) ≤ 2 ^ (3 * k) := zpow_le_zpow_right₀ (by norm_num) (by omega)
    have hstep : (2 : ℚ) ^ (1024 : ℤ) < 2 ^ (1025 : ℤ) := zpow_lt_zpow_right₀ (by norm_num) (by omega)
    have hprod : (10 : ℚ) ^ k ≤ d * 10 ^ k := le_mul_of_one_le_left (by positivity) hone
    exact absurd hhigh (not_le.2 (hstep.trans_le (hmono.trans (hten.trans hprod))))
  · by_contra hk
    have hinv := ten_zpow_le_two_zpow (k := k) (by omega)
    have hprod : (d : ℚ) * 10 ^ k < 2 ^ ((d.log2 : ℤ) + 1) * 2 ^ (3 * k) :=
      mul_lt_mul (lt_two_zpow d) hinv (by positivity) (by positivity)
    rw [← zpow_add₀ (by norm_num)] at hprod
    have hmono : (2 : ℚ) ^ ((d.log2 : ℤ) + 1 + 3 * k) ≤ 2 ^ (-1075 : ℤ) :=
      zpow_le_zpow_right₀ (by norm_num) (by omega)
    exact absurd hlow (not_le.2 (hprod.trans_le hmono))

/-- Decimals are rounded from their exact value. -/
theorem ofScientific_finite (hd : IsDouble m e) {d : ℕ} (hpos : 0 < d) {k : ℤ}
    (hround : Rounds m e (d * 10 ^ k)) :
    UnpackedFloat.ofScientific .binary64 d k = .finite .positive m e hd.pos := by
  obtain ⟨hmost, hleast⟩ := hround.exponent hd hpos
  have htop : ¬ k > 2 ^ Format.binary64.exponentBits := by
    show ¬ k > 2 ^ 11
    omega
  have hbottom : ¬ k < -((2 ^ Format.binary64.exponentBits : ℤ) + d.log2) := by
    show ¬ k < -(2 ^ 11 + d.log2 : ℤ)
    omega
  rw [UnpackedFloat.ofScientific, dif_neg (Nat.ne_of_gt hpos), if_neg htop, if_neg hbottom]
  by_cases hk : 0 ≤ k
  · obtain ⟨j, rfl⟩ := Int.eq_ofNat_of_zero_le hk
    have hvalue : ((d <<< 53 : ℕ) : ℚ) * 2 ^ (-(53 : ℕ) : ℤ) * ((10 ^ j : ℕ) * 2 ^ (0 : ℤ)) =
        d * 10 ^ (j : ℤ) := by
      rw [Nat.shiftLeft_eq, zpow_neg, zpow_natCast, zpow_natCast, zpow_zero, mul_one]
      push_cast
      field_simp
      norm_num
    rw [if_pos hk]
    refine mul_eq hd _ _ ?_ ?_
    · rw [Nat.shiftLeft_eq]
      exact le_trans (by decide) (Nat.le_mul_of_pos_left (2 ^ 53) hpos)
    · rw [Int.toNat_natCast, show Format.binary64.mantissaBits = 53 from rfl, hvalue]
      exact hround
  · obtain ⟨j, rfl⟩ : ∃ j : ℕ, k = -j := ⟨(-k).toNat, by omega⟩
    have hvalue : (d : ℚ) * 2 ^ (0 : ℤ) / ((10 ^ j : ℕ) * 2 ^ (0 : ℤ)) = d * 10 ^ (-(j : ℤ)) := by
      rw [zpow_zero, mul_one, mul_one, zpow_neg, zpow_natCast, div_eq_mul_inv]
      push_cast
      rfl
    rw [if_neg hk]
    refine div_eq hd _ _ ?_
    rw [neg_neg, Int.toNat_natCast, hvalue]
    exact hround

/-- **Decimals are read as the double** in whose interval they lie. -/
theorem ofScientific_eq (hd : IsDouble m e) {d k : ℕ} (hpos : 0 < d) (below : Bool)
    (hround : Rounds m e (d * 10 ^ (if below then Int.negOfNat k else Int.ofNat k))) :
    Float.ofScientific d below k = .ofModel (.pack (.finite .positive m e hd.pos)) := by
  by_cases hfast : d < 2 ^ 53 ∧ k ≤ 22
  · obtain ⟨m₁, e₁, h₁, hunpack₁, hbits, hvalue₁⟩ := unpack_toFloat hpos hfast.1
    have hk : k < Float.exactlyRepresentablePowersOfTen.size := Nat.lt_succ_of_le hfast.2
    obtain ⟨m₂, e₂, h₂, hunpack₂, hvalue₂⟩ := unpack_powerOfTen hk
    rw [Float.ofScientific, dif_pos hfast]
    cases below with
    | false =>
      show Float.ofModel (.pack (UnpackedFloat.mul .binary64 d.toUInt64.toFloat.toModel.unpack
        Float.exactlyRepresentablePowersOfTen[k].toModel.unpack)) = _
      rw [hunpack₁, hunpack₂, mul_eq hd h₁ h₂ hbits]
      rw [← hvalue₁, ← hvalue₂]
      exact hround
    | true =>
      show Float.ofModel (.pack (UnpackedFloat.div .binary64 d.toUInt64.toFloat.toModel.unpack
        Float.exactlyRepresentablePowersOfTen[k].toModel.unpack)) = _
      rw [hunpack₁, hunpack₂, div_eq hd h₁ h₂]
      rw [← hvalue₁, ← hvalue₂, div_eq_mul_inv, ← zpow_natCast, ← zpow_neg]
      rwa [if_pos rfl, Int.negOfNat_eq] at hround
  · rw [Float.ofScientific, dif_neg hfast]
    show Float.ofModel (.pack (UnpackedFloat.ofScientific .binary64 d _)) = _
    rw [ofScientific_finite hd hpos hround]

end GeoScript.Decimal
