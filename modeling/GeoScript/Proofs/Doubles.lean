import GeoScript.Decimal.Layout
import Mathlib

/-!
# The two views of a double

**Fields.** A double is given by its sign, its exponent and its fraction, packed into 64 bits.
Arithmetic unpacks it, computes with integers, and packs the rounded result. The integer view that
texts are made from reads the same fields by division and remainder, so the two views agree
(`magnitude_eq`).

**Sizes.** The size and the sign make up the number, the two zeros included (`signed_abs`). This is
why a sign in front of a size is all that a text needs.

That packing and unpacking undo each other is known to the library (`pack_unpack`), and so is when
doubles are equal. No module of Mathlib but the whole passes these facts on, hence the import.
-/

namespace GeoScript.Decimal

open Float.Model Float.Model.UnpackedFloat

/-! ## Fields -/

variable (b : BitVec Float.Model.Format.binary64.numBits)

theorem toNat_unpackMantissa : (unpackMantissa b).toNat = b.toNat % hiddenBit := by
  simp [unpackMantissa, hiddenBit]

theorem toNat_unpackExponent : (unpackExponent b).toNat = b.toNat / hiddenBit % 2048 := by
  simp [unpackExponent, hiddenBit, Nat.shiftRight_eq_div_pow]

theorem unpackSign_eq : unpackSign b = BitVec.ofBool (b.toNat.testBit 63) := by
  ext i hi
  obtain rfl : i = 0 := by omega
  simp [unpackSign, BitVec.getLsbD]

theorem ofBitVec_unpackSign :
    Sign.ofBitVec (unpackSign b) = if b.toNat.testBit 63 then .negative else .positive := by
  rw [unpackSign_eq]
  cases b.toNat.testBit 63 <;> rfl

theorem toNat_append_one (m : BitVec 52) : (1#1 ++ m).toNat = hiddenBit + m.toNat := by
  rw [BitVec.toNat_append, ← Nat.shiftLeft_add_eq_or_of_lt m.isLt]
  rfl

/-- The unpacked double with the given fields. -/
def ofFields (s : Sign) (e : BitVec 11) (m : BitVec 52) : UnpackedFloat :=
  UnpackedFloat.unpack .binary64 (packComponents .binary64 s e m)

theorem unpack_eq_ofFields : UnpackedFloat.unpack .binary64 b =
    ofFields (Sign.ofBitVec (unpackSign b)) (unpackExponent b) (unpackMantissa b) := by
  rw [ofFields, packComponents_unpackSign_unpackExponent_unpackMantissa]

section

variable (s : Sign) {e : BitVec 11} {m : BitVec 52}

theorem ofFields_infinity : ofFields s 2047#11 0#52 = .infinity s := by
  simp [ofFields, UnpackedFloat.unpack]

theorem ofFields_nan (hm : m ≠ 0#52) : ofFields s 2047#11 m = .notANumber := by
  simp [ofFields, UnpackedFloat.unpack, hm]

theorem ofFields_zero : ofFields s 0#11 0#52 = .zero s := by
  simp [ofFields, UnpackedFloat.unpack]

theorem ofFields_subnormal (hm : 0 < m.toNat) :
    ofFields s 0#11 m = .finite s m.toNat leastExponent hm := by
  have hne : m ≠ 0#52 := fun heq => by simp [heq] at hm
  simp [ofFields, UnpackedFloat.unpack, hne, Format.exponentBias, leastExponent]

theorem ofFields_normal (hmax : e ≠ 2047#11) (hmin : e ≠ 0#11) :
    ofFields s e m = .finite s (hiddenBit + m.toNat) (e.toNat - 1075)
      (Nat.add_pos_left (by decide) _) := by
  simp [ofFields, UnpackedFloat.unpack, hmax, hmin, Format.exponentBias, toNat_append_one]

end

/-- What the fields of a positive double have to be: the mantissa has 53 bits, or fewer if the
exponent is the least one. -/
structure IsDouble (m : Nat) (e : Int) : Prop where
  pos : 0 < m
  lt : m < 2 * hiddenBit
  least : leastExponent ≤ e
  most : e ≤ 971
  normal : hiddenBit ≤ m ∨ e = leastExponent

/-- The kinds of fields. The greatest exponent is kept for what is not a finite number, and the
least one for the numbers whose mantissa has no hidden bit. -/
inductive Fields : BitVec 11 → BitVec 52 → Prop
  | infinity : Fields 2047#11 0#52
  | nan {m : BitVec 52} (hm : m ≠ 0#52) : Fields 2047#11 m
  | zero : Fields 0#11 0#52
  | subnormal {m : BitVec 52} (hm : 0 < m.toNat) : Fields 0#11 m
  | normal {e : BitVec 11} {m : BitVec 52} (hmax : e ≠ 2047#11) (hmin : e ≠ 0#11) : Fields e m

theorem fields (e : BitVec 11) (m : BitVec 52) : Fields e m := by
  by_cases hmax : e = 2047#11
  · subst hmax
    by_cases hm : m = 0#52
    · subst hm
      exact .infinity
    · exact .nan hm
  · by_cases hmin : e = 0#11
    · subst hmin
      by_cases hm : m = 0#52
      · subst hm
        exact .zero
      · exact .subnormal (Nat.pos_of_ne_zero fun h => hm (BitVec.eq_of_toNat_eq h))
    · exact .normal hmax hmin

theorem isDouble_subnormal {m : BitVec 52} (hm : 0 < m.toNat) :
    IsDouble m.toNat leastExponent := by
  have hlt : m.toNat < hiddenBit := m.isLt
  exact ⟨hm, by omega, Int.le_refl _, by decide, .inr rfl⟩

theorem isDouble_normal {e : BitVec 11} (m : BitVec 52) (hmax : e ≠ 2047#11) (hmin : e ≠ 0#11) :
    IsDouble (hiddenBit + m.toNat) (e.toNat - 1075) := by
  have hlt : m.toNat < hiddenBit := m.isLt
  have hpos : 0 < hiddenBit := by decide
  have hetop : e.toNat ≠ 2047 := fun h => hmax (BitVec.eq_of_toNat_eq h)
  have hebottom : e.toNat ≠ 0 := fun h => hmin (BitVec.eq_of_toNat_eq h)
  have he := e.isLt
  refine ⟨by omega, by omega, ?_, by omega, .inl (by omega)⟩
  unfold leastExponent
  omega

/-- The cases of `ofFields`, with what holds of the mantissa and the exponent. -/
theorem ofFields_cases (e : BitVec 11) (m : BitVec 52) :
    (∀ s, ofFields s e m = .infinity s) ∨ (∀ s, ofFields s e m = .notANumber) ∨
    (∀ s, ofFields s e m = .zero s) ∨
    ∃ n k, ∃ h : IsDouble n k, ∀ s, ofFields s e m = .finite s n k h.pos := by
  cases fields e m with
  | infinity => exact .inl ofFields_infinity
  | nan hm => exact .inr <| .inl fun s => ofFields_nan s hm
  | zero => exact .inr <| .inr <| .inl ofFields_zero
  | subnormal hm =>
    exact .inr <| .inr <| .inr ⟨_, _, isDouble_subnormal hm, fun s => ofFields_subnormal s hm⟩
  | normal hmax hmin =>
    exact .inr <| .inr <| .inr ⟨_, _, isDouble_normal m hmax hmin,
      fun s => ofFields_normal s hmax hmin⟩

/-! ## Packing -/

theorem log2_of_normal {n : Nat} (h : hiddenBit ≤ n) (hlt : n < 2 * hiddenBit) : n.log2 = 52 := by
  rw [Nat.log2_eq_iff (by unfold hiddenBit at h; omega)]
  exact ⟨h, hlt⟩

/-- Unpacking undoes packing. -/
theorem unpack_pack_ofFields (s : Sign) (e : BitVec 11) (m : BitVec 52) :
    (Float.Model.pack (ofFields s e m)).unpack = ofFields s e m := by
  show UnpackedFloat.unpack .binary64 (UnpackedFloat.pack .binary64
    (UnpackedFloat.unpack .binary64 (packComponents .binary64 s e m))) = ofFields s e m
  rw [pack_unpack]
  by_cases hnan : isNaNBits (packComponents .binary64 s e m) = true
  · rw [if_pos hnan, unpack_packedNaN]
    simp [isNaNBits] at hnan
    rw [hnan.1, ofFields_nan s hnan.2]
  · rw [if_neg hnan]
    rfl

/-- Every mantissa with its exponent comes from fields. -/
theorem exists_fields {n : Nat} {k : Int} (h : IsDouble n k) :
    ∃ e m, ∀ s, ofFields s e m = .finite s n k h.pos := by
  obtain ⟨hpos, hlt, hleast, hmost, hnormal⟩ := h
  unfold leastExponent at hleast hnormal
  by_cases hn : hiddenBit ≤ n
  · have he : (BitVec.ofNat 11 (k + 1075).toNat).toNat = (k + 1075).toNat := by
      rw [BitVec.toNat_ofNat, Nat.mod_eq_of_lt (by omega)]
    have hm : (BitVec.ofNat 52 (n - hiddenBit)).toNat = n - hiddenBit := by
      rw [BitVec.toNat_ofNat]
      exact Nat.mod_eq_of_lt (show n - hiddenBit < hiddenBit by omega)
    have hmax : BitVec.ofNat 11 (k + 1075).toNat ≠ 2047#11 := fun heq => by
      rw [heq] at he
      simp at he
      omega
    have hmin : BitVec.ofNat 11 (k + 1075).toNat ≠ 0#11 := fun heq => by
      rw [heq] at he
      simp at he
      omega
    refine ⟨BitVec.ofNat 11 (k + 1075).toNat, BitVec.ofNat 52 (n - hiddenBit), fun s => ?_⟩
    rw [ofFields_normal s hmax hmin]
    simp only [hm, he, show hiddenBit + (n - hiddenBit) = n by omega,
      show ((k + 1075).toNat : Int) - 1075 = k by omega]
  · have hm : (BitVec.ofNat 52 n).toNat = n := by
      rw [BitVec.toNat_ofNat]
      exact Nat.mod_eq_of_lt (show n < hiddenBit by omega)
    obtain rfl := hnormal.resolve_left hn
    refine ⟨0#11, BitVec.ofNat 52 n, fun s => ?_⟩
    rw [ofFields_subnormal s (by rwa [hm])]
    simp only [hm]
    rfl

theorem unpack_pack_finite (s : Sign) {n : Nat} {k : Int} (h : IsDouble n k) :
    (Float.Model.pack (.finite s n k h.pos)).unpack = .finite s n k h.pos := by
  obtain ⟨e, m, hfields⟩ := exists_fields h
  rw [← hfields s]
  exact unpack_pack_ofFields s e m

/-! ## The integer view -/

/-- Whether a sign is negative. -/
def isMinus : Sign → Bool
  | .negative => true
  | .positive => false

/-- What an unpacked double stands for. -/
def magnitudeOf : UnpackedFloat → Magnitude
  | .notANumber => .nan
  | .infinity s => .infinite (isMinus s)
  | .zero s => .finite ⟨isMinus s, 0, leastExponent⟩
  | .finite s m e _ => .finite ⟨isMinus s, m, e⟩

theorem magnitude_unpack :
    Magnitude.ofBits b.toNat = magnitudeOf (UnpackedFloat.unpack .binary64 b) := by
  have hsign : b.toNat.testBit 63 = isMinus (Sign.ofBitVec (unpackSign b)) := by
    rw [ofBitVec_unpackSign]
    cases b.toNat.testBit 63 <;> rfl
  rw [unpack_eq_ofFields, Magnitude.ofBits, hsign, ← toNat_unpackExponent, ← toNat_unpackMantissa]
  generalize Sign.ofBitVec (unpackSign b) = s
  generalize (unpackExponent b : BitVec 11) = e
  generalize (unpackMantissa b : BitVec 52) = m
  cases fields e m with
  | infinity =>
    rw [ofFields_infinity]
    rfl
  | nan hm =>
    rw [ofFields_nan s hm]
    simp [magnitudeOf, ← BitVec.toNat_inj] at hm ⊢
    exact hm
  | zero =>
    rw [ofFields_zero]
    rfl
  | subnormal hm =>
    rw [ofFields_subnormal s hm]
    rfl
  | normal hmax hmin =>
    have hetop : e.toNat ≠ 2047 := fun h => hmax (BitVec.eq_of_toNat_eq h)
    have hebottom : e.toNat ≠ 0 := fun h => hmin (BitVec.eq_of_toNat_eq h)
    rw [ofFields_normal s hmax hmin]
    simp only [hetop, hebottom, if_false, magnitudeOf, leastExponent]
    congr 2
    omega

/-- **The two views agree.** -/
theorem magnitude_eq (x : Float) : Magnitude.ofFloat x = magnitudeOf x.toModel.unpack :=
  magnitude_unpack x.toModel.toBits.toBitVec

/-! ## Sizes and signs -/

/-- Every double unpacks to what some fields stand for. -/
theorem exists_ofFields (x : Float) : ∃ s e m, x.toModel.unpack = ofFields s e m :=
  ⟨_, _, _, unpack_eq_ofFields _⟩

theorem neg_ofFields (s : Sign) (e : BitVec 11) (m : BitVec 52) :
    (ofFields s e m).neg = ofFields (-s) e m := by
  rcases ofFields_cases e m with h | h | h | ⟨n, k, hd, h⟩ <;> rw [h, h] <;> rfl

theorem abs_ofFields (s : Sign) (e : BitVec 11) (m : BitVec 52) :
    (ofFields s e m).abs = ofFields .positive e m := by
  rcases ofFields_cases e m with h | h | h | ⟨n, k, hd, h⟩ <;> rw [h, h] <;> rfl

/-- Whether a double is written with a sign. -/
def isSigned (x : Float) : Bool :=
  match Magnitude.ofFloat x with
  | .finite v => v.negative
  | .infinite negative => negative
  | .nan => false

theorem isSigned_of_unpack {x : Float} {s : Sign} {e : BitVec 11} {m : BitVec 52}
    (h : x.toModel.unpack = ofFields s e m) (hx : x.isFinite = true) : isSigned x = isMinus s := by
  have hfinite : (ofFields s e m).isFinite = true := h ▸ hx
  rw [isSigned, magnitude_eq, h]
  rcases ofFields_cases e m with h | h | h | ⟨n, k, hd, h⟩
  · rw [h]
    rfl
  · rw [h] at hfinite
    cases hfinite
  · rw [h]
    rfl
  · rw [h]
    rfl

/-- **A number is its size with its sign**, and so are the two zeros. -/
theorem signed_abs {x : Float} (hx : x.isFinite = true) :
    (if isSigned x then -x.abs else x.abs) = x := by
  obtain ⟨s, e, m, hunpack⟩ := exists_ofFields x
  have hpacked : Float.ofModel (.pack (ofFields s e m)) = x := by
    rw [← hunpack]
    exact Float.ofBits_toBits x
  have habs : x.abs = Float.ofModel (.pack (ofFields .positive e m)) := by
    show Float.ofModel (.pack x.toModel.unpack.abs) = _
    rw [hunpack, abs_ofFields]
  have hneg : -x.abs = Float.ofModel (.pack (ofFields .negative e m)) := by
    rw [habs]
    show Float.ofModel (.pack (Float.Model.pack (ofFields .positive e m)).unpack.neg) = _
    rw [unpack_pack_ofFields, neg_ofFields]
    rfl
  rw [isSigned_of_unpack hunpack hx]
  cases s with
  | negative => exact hneg.trans hpacked
  | positive => exact habs.trans hpacked

/-- A finite double is a zero, or has a mantissa and an exponent. -/
theorem finite_cases {x : Float} (hx : x.isFinite = true) :
    (∃ s, x.toModel.unpack = .zero s) ∨
    ∃ s n k, ∃ h : IsDouble n k, x.toModel.unpack = .finite s n k h.pos := by
  obtain ⟨s, e, m, hunpack⟩ := exists_ofFields x
  have hfinite : (ofFields s e m).isFinite = true := hunpack ▸ hx
  rw [hunpack]
  rcases ofFields_cases e m with h | h | h | ⟨n, k, hd, h⟩
  · rw [h] at hfinite
    cases hfinite
  · rw [h] at hfinite
    cases hfinite
  · exact .inl ⟨s, h s⟩
  · exact .inr ⟨s, n, k, hd, h s⟩

end GeoScript.Decimal
