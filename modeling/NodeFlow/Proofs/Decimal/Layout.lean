import Mathlib
import NodeFlow.Decimal.Binary

/-!
# The layout of doubles

A double is a sign, a scale of 11 bits and a fraction of 52 bits.  Its exact value and the form on
which arithmetic works are both read off these three parts, so they can be had from one another.

Main results:

- Theorem `Binary.ofFloat?_of_parts`: the exact value of a double from its parts.
- Theorem `Binary.unpack_of_ofFloat?`: the form on which arithmetic works, from the exact value.
- Definition `Binary.ofDigits` and theorem `Binary.floor_ofDigits`: a rounded value with its carry.
- Theorems `Binary.ofFloat?_pack` and `Binary.ofFloat?_ofBits`: the exact value of a double that is put
  together.
-/

namespace NodeFlow.Decimal

open Float.Model Float.Model.UnpackedFloat

/-! ## Parts -/

/-- The bits of a double, from its parts. -/
theorem toNat_packComponents (s : Sign) (e : BitVec 11) (m : BitVec 52) :
    (packComponents Format.binary64 s e m).toNat =
      (s.toBitVec.toNat * 2 ^ 11 + e.toNat) * 2 ^ 52 + m.toNat := by
  have happend : ∀ {v w : Nat} (a : BitVec v) (b : BitVec w),
      (a ++ b).toNat = a.toNat * 2 ^ w + b.toNat := by
    intro v w a b
    rw [BitVec.toNat_append, ← Nat.shiftLeft_add_eq_or_of_lt b.isLt, Nat.shiftLeft_eq]
  rw [packComponents, happend, happend]

namespace Binary

/-- The exact value of a double from its parts. -/
theorem ofFloat?_of_parts {x : Float} {s e m : Nat} (he : e < 2 ^ 11) (hm : m < 2 ^ 52)
    (hx : x.toBits.toNat = (s * 2 ^ 11 + e) * 2 ^ 52 + m) :
    ofFloat? x = if e = 2047 then none
      else if e = 0 then some ⟨s == 1, m, -1074⟩
      else some ⟨s == 1, m + 2 ^ 52, (e : Int) - 1075⟩ := by
  have hfraction : x.toBits.toNat % Nat.pow 2 52 = m := by
    rw [hx]
    simp only [Nat.pow_eq]
    omega
  have hscale : x.toBits.toNat / Nat.pow 2 52 % Nat.pow 2 11 = e := by
    rw [hx]
    simp only [Nat.pow_eq]
    omega
  have hsign : x.toBits.toNat / Nat.pow 2 63 = s := by
    rw [hx]
    simp only [Nat.pow_eq]
    omega
  unfold ofFloat?
  simp only [hfraction, hscale, hsign, beq_iff_eq, Nat.pow_eq]

/-- What every double has: a mantissa of 53 bits at most, and of fewer at the lowest exponent only. -/
structure IsCanonical (b : Binary) : Prop where
  mantissa_lt : b.mantissa < 2 ^ 53
  exponent_ge : -1074 ≤ b.exponent
  exponent_le : b.exponent ≤ 971
  normal : 2 ^ 52 ≤ b.mantissa ∨ b.exponent = -1074

/-- The exact value of a double from the parts of its bits, if it is finite. -/
def ofParts (s : Sign) (e : BitVec 11) (m : BitVec 52) : Binary :=
  if e.toNat = 0 then ⟨s.toBitVec.toNat == 1, m.toNat, -1074⟩
  else ⟨s.toBitVec.toNat == 1, m.toNat + 2 ^ 52, (e.toNat : Int) - 1075⟩

private theorem ofFloat?_of_bits {x : Float} {s : Sign} {e : BitVec 11} {m : BitVec 52}
    (hx : x.toModel.toBits.toBitVec = packComponents Format.binary64 s e m) :
    ofFloat? x = if e.toNat = 2047 then none else some (ofParts s e m) := by
  have hbits : x.toBits.toNat = (s.toBitVec.toNat * 2 ^ 11 + e.toNat) * 2 ^ 52 + m.toNat := by
    rw [← toNat_packComponents, ← hx]
    rfl
  rw [ofFloat?_of_parts e.isLt m.isLt hbits, ofParts]
  split
  · rfl
  · split <;> rfl

/-- The parts of a double. -/
theorem exists_parts (x : Float) : ∃ (s : Sign) (e : BitVec 11) (m : BitVec 52),
    x.toModel.toBits.toBitVec = packComponents Format.binary64 s e m :=
  ⟨_, _, _, (@packComponents_unpackSign_unpackExponent_unpackMantissa Format.binary64
    x.toModel.toBits.toBitVec).symm⟩

private theorem ofParts_isCanonical {s : Sign} {e : BitVec 11} {m : BitVec 52}
    (he : e.toNat ≠ 2047) : (ofParts s e m).IsCanonical := by
  have hm := m.isLt
  have he' := e.isLt
  unfold ofParts
  split
  · exact ⟨by simp only; omega, by simp, by simp, .inr rfl⟩
  · exact ⟨by simp only; omega, by simp only; omega, by simp only; omega, .inl (by simp only; omega)⟩

/-- What a double stands for has the mantissa and the exponent of a double. -/
theorem ofFloat?_isCanonical {x : Float} {b : Binary} (h : ofFloat? x = some b) : b.IsCanonical := by
  obtain ⟨s, e, m, hx⟩ := exists_parts x
  rw [ofFloat?_of_bits hx] at h
  split at h
  · cases h
  · rename_i he
    cases h
    exact ofParts_isCanonical he

/-- The sign of a value. -/
def sign (b : Binary) : Sign := if b.negative then .negative else .positive

/-- The form on which arithmetic works. -/
def unpacked (b : Binary) : UnpackedFloat :=
  if h : b.mantissa = 0 then .zero b.sign
  else .finite b.sign b.mantissa b.exponent (Nat.pos_of_ne_zero h)

private theorem sign_ofParts (s : Sign) (e : BitVec 11) (m : BitVec 52) :
    (ofParts s e m).sign = s := by
  unfold ofParts sign
  cases s <;> split <;> rfl

private theorem unpack_packComponents {s : Sign} {e : BitVec 11} {m : BitVec 52}
    (he : e.toNat ≠ 2047) :
    UnpackedFloat.unpack Format.binary64 (packComponents Format.binary64 s e m) =
      (ofParts s e m).unpacked := by
  have hinfinite : e ≠ -1#11 := fun h => he (by rw [h]; rfl)
  have hbias : ((Format.binary64.exponentBias : Int) +
      (Format.binary64.mantissaBitsWithoutImplicit : Int)) = 1075 := rfl
  unfold UnpackedFloat.unpack
  simp only [unpackMantissa_packComponents, unpackExponent_packComponents,
    unpackSign_packComponents, Sign.ofBitVec_toBitVec, hbias]
  rw [if_neg hinfinite, unpacked]
  simp only [sign_ofParts]
  by_cases hzero : e = 0#11
  · have hparts : ofParts s e m = ⟨s.toBitVec.toNat == 1, m.toNat, -1074⟩ :=
      if_pos (by rw [hzero]; rfl)
    rw [if_pos hzero]
    simp only [hparts]
    by_cases hm : m = 0#52
    · rw [dif_pos hm, dif_pos (by rw [hm]; rfl)]
    · have hpos : m.toNat ≠ 0 := fun h => hm (BitVec.eq_of_toNat_eq h)
      rw [dif_neg hm, dif_neg hpos]
      simp [hzero]
  · have hparts : ofParts s e m =
        ⟨s.toBitVec.toNat == 1, m.toNat + 2 ^ 52, (e.toNat : Int) - 1075⟩ :=
      if_neg fun h => hzero (BitVec.eq_of_toNat_eq h)
    have happend : (1#1 ++ m).toNat = m.toNat + 2 ^ 52 := by
      rw [BitVec.toNat_append, ← Nat.shiftLeft_add_eq_or_of_lt m.isLt, Nat.add_comm]
      rfl
    rw [if_neg hzero]
    simp only [hparts]
    rw [dif_neg (by omega)]
    simp only [happend]

/-- The form on which arithmetic works, from the exact value. -/
theorem unpack_of_ofFloat? {x : Float} {b : Binary} (h : ofFloat? x = some b) :
    x.toModel.unpack = b.unpacked := by
  obtain ⟨s, e, m, hx⟩ := exists_parts x
  rw [ofFloat?_of_bits hx] at h
  split at h
  · cases h
  · rename_i he
    cases h
    rw [Float.Model.unpack, hx, unpack_packComponents he]

/-- The parts of a canonical value. -/
theorem IsCanonical.exists_ofParts {b : Binary} (hb : b.IsCanonical) :
    ∃ (e : BitVec 11) (m : BitVec 52), e.toNat ≠ 2047 ∧ ofParts b.sign e m = b ∧
      UnpackedFloat.pack Format.binary64 b.unpacked =
        packComponents Format.binary64 b.sign e m := by
  obtain ⟨negative, mantissa, exponent⟩ := b
  obtain ⟨hm, hlow, hhigh, hnormal⟩ := hb
  simp only at hm hlow hhigh hnormal
  have hnegative : ((sign ⟨negative, mantissa, exponent⟩).toBitVec.toNat == 1) = negative := by
    cases negative <;> rfl
  by_cases hsmall : mantissa < 2 ^ 52
  · have hexponent : exponent = -1074 := by omega
    have htoNat : (BitVec.ofNat 52 mantissa).toNat = mantissa := by
      rw [BitVec.toNat_ofNat, Nat.mod_eq_of_lt hsmall]
    refine ⟨0#11, BitVec.ofNat 52 mantissa, by decide, ?_, ?_⟩
    · rw [ofParts, if_pos (by rfl), hnegative, htoNat, hexponent]
    · unfold unpacked
      split
      · rename_i hzero
        simp only at hzero
        rw [hzero]
        rfl
      · rename_i hpos
        simp only at hpos
        have hlog : mantissa.log2 < 52 := (Nat.log2_lt hpos).2 hsmall
        simp only [UnpackedFloat.pack, hexponent, Format.mantissaBits]
        rw [if_neg (by decide), if_neg (by omega)]
  · have hpos : mantissa ≠ 0 := by omega
    have hlog : mantissa.log2 = 52 := by
      rw [Nat.log2_eq_iff hpos]
      omega
    have hbiased : (exponent + Format.binary64.exponentBias +
        Format.binary64.mantissaBitsWithoutImplicit).toNat = (exponent + 1075).toNat := by
      have hbias : (Format.binary64.exponentBias : Int) = 1023 := rfl
      have hwidth : (Format.binary64.mantissaBitsWithoutImplicit : Int) = 52 := rfl
      rw [hbias, hwidth]
      omega
    have hscale : (BitVec.ofNat 11 (exponent + 1075).toNat).toNat = (exponent + 1075).toNat := by
      rw [BitVec.toNat_ofNat, Nat.mod_eq_of_lt (by omega)]
    have hfraction : (BitVec.ofNat 52 mantissa).toNat + 2 ^ 52 = mantissa := by
      rw [BitVec.toNat_ofNat]
      omega
    refine ⟨BitVec.ofNat 11 (exponent + 1075).toNat, BitVec.ofNat 52 mantissa, by omega, ?_, ?_⟩
    · rw [ofParts, if_neg (by omega), hnegative, hfraction, hscale]
      congr 1
      omega
    · rw [unpacked, dif_neg hpos]
      simp only [UnpackedFloat.pack, hbiased, hlog]
      rw [if_neg (by simp; omega), if_pos (by rfl)]

/-- A double that is put together from a canonical value has that value. -/
theorem ofFloat?_pack {b : Binary} (hb : b.IsCanonical) :
    ofFloat? (Float.ofModel (Float.Model.pack b.unpacked)) = some b := by
  obtain ⟨e, m, he, hparts, hpack⟩ := hb.exists_ofParts
  rw [ofFloat?_of_bits (s := b.sign) (e := e) (m := m) hpack, if_neg he, hparts]

/-- A double that is given by its bits has the value of its parts. -/
theorem ofFloat?_ofBits {u : UInt64} {s : Sign} {e : BitVec 11} {m : BitVec 52}
    (hu : u.toBitVec = packComponents Format.binary64 s e m) (he : e.toNat ≠ 2047) :
    ofFloat? (Float.ofBits u) = some (ofParts s e m) := by
  have hmodel : Float.ofBits u = Float.ofModel (Float.Model.pack (ofParts s e m).unpacked) := by
    rw [Float.ofBits, Float.Model.ofBits, hu, unpack_packComponents he]
  rw [hmodel, ofFloat?_pack (ofParts_isCanonical he)]

/-! ## Rounded values -/

/-- The value `r * 2 ^ t` of at most 53 bits; the 54th, if rounding has carried into it, moves the
exponent. -/
def ofDigits (r : Nat) (t : Int) : Binary :=
  if r < 2 ^ 53 then ⟨false, r, t⟩ else ⟨false, 2 ^ 52, t + 1⟩

/-- What rounding to the nearest double leaves. -/
structure IsRounded (r : Nat) (t : Int) : Prop where
  digits_le : r ≤ 2 ^ 53
  exponent_ge : -1074 ≤ t
  exponent_le : t ≤ 970
  normal : 2 ^ 52 ≤ r ∨ t = -1074

variable {r : Nat} {t : Int}

/-- What rounding leaves has the mantissa and the exponent of a double. -/
theorem IsRounded.isCanonical (h : IsRounded r t) : (ofDigits r t).IsCanonical := by
  obtain ⟨hr, hlow, hhigh, hnormal⟩ := h
  unfold ofDigits
  split
  · exact ⟨by assumption, hlow, by simp only; omega, hnormal⟩
  · exact ⟨by norm_num, by simp only; omega, by simp only; omega, .inl le_rfl⟩

/-- The bits of a rounded value; a carry goes from the fraction into the scale by itself. -/
theorem IsRounded.ofFloat?_ofBits (h : IsRounded r t) :
    ofFloat? (Float.ofBits (UInt64.ofNat ((t + 1074).toNat * 2 ^ 52 + r))) =
      some (ofDigits r t) := by
  obtain ⟨hr, hlow, hhigh, hnormal⟩ := h
  obtain ⟨e, m, he, hm, hbits, hvalue⟩ : ∃ e m : Nat, e < 2047 ∧ m < 2 ^ 52 ∧
      (t + 1074).toNat * 2 ^ 52 + r = e * 2 ^ 52 + m ∧
      (if e = 0 then ⟨false, m, -1074⟩ else ⟨false, m + 2 ^ 52, (e : Int) - 1075⟩) =
        ofDigits r t := by
    refine ⟨((t + 1074).toNat * 2 ^ 52 + r) / 2 ^ 52, ((t + 1074).toNat * 2 ^ 52 + r) % 2 ^ 52,
      by omega, by omega, by omega, ?_⟩
    unfold ofDigits
    by_cases hcarry : r < 2 ^ 53
    · rw [if_pos hcarry]
      by_cases hsmall : r < 2 ^ 52
      · rw [if_pos (by omega)]
        congr 1 <;> omega
      · rw [if_neg (by omega)]
        congr 1 <;> omega
    · rw [if_neg hcarry, if_neg (by omega)]
      congr 1 <;> omega
  have hscale : (BitVec.ofNat 11 e).toNat = e := by
    rw [BitVec.toNat_ofNat, Nat.mod_eq_of_lt (by omega)]
  have hfraction : (BitVec.ofNat 52 m).toNat = m := by
    rw [BitVec.toNat_ofNat, Nat.mod_eq_of_lt hm]
  have hpack : (UInt64.ofNat ((t + 1074).toNat * 2 ^ 52 + r)).toBitVec =
      packComponents Format.binary64 .positive (BitVec.ofNat 11 e) (BitVec.ofNat 52 m) := by
    apply BitVec.eq_of_toNat_eq
    have hpositive : Sign.positive.toBitVec.toNat = 0 := rfl
    rw [toNat_packComponents, hscale, hfraction, hbits, hpositive, UInt64.toNat_toBitVec,
      UInt64.toNat_ofNat']
    omega
  rw [Binary.ofFloat?_ofBits hpack (by omega), ofParts, hscale, hfraction]
  exact congrArg some hvalue

private theorem quotient_ofDigits (hr : r ≤ 2 ^ 53) (ht : t < 0) :
    (ofDigits r t).quotient.1 / (ofDigits r t).quotient.2 = r / 2 ^ (-t).toNat := by
  unfold ofDigits
  split
  · simp only [quotient, Nat.pow_eq]
    rw [if_neg (by omega)]
  · have hcarry : r = 2 ^ 52 * 2 := by omega
    obtain ⟨d, hd⟩ : ∃ d, (-t).toNat = d + 1 := ⟨(-t).toNat - 1, by omega⟩
    simp only [quotient, Nat.pow_eq]
    by_cases hunit : 0 ≤ t + 1
    · have hd0 : d = 0 := by omega
      have ht0 : (t + 1).toNat = 0 := by omega
      rw [if_pos hunit, hd, hd0, ht0, hcarry]
      norm_num
    · have hd' : (-(t + 1)).toNat = d := by omega
      rw [if_neg hunit, hd', hd, hcarry, Nat.pow_succ]
      exact (Nat.mul_div_mul_right (2 ^ 52) (2 ^ d) Nat.zero_lt_two).symm

/-- A number that is put together from digits is not negative. -/
theorem negative_ofDigits : (ofDigits r t).negative = false := by
  unfold ofDigits
  split <;> rfl

/-- The largest whole number that is not above a rounded value with a fraction. -/
theorem floor_ofDigits (hr : r ≤ 2 ^ 53) (ht : t < 0) :
    (ofDigits r t).floor = ((r / 2 ^ (-t).toNat : Nat) : Int) := by
  rw [← quotient_ofDigits hr ht, floor]
  simp only [negative_ofDigits, Bool.false_eq_true, if_false]
  exact (Int.ofNat_fdiv _ _).symm

/-- The whole part of a number that is put together from digits. -/
theorem truncate_ofDigits (hr : r ≤ 2 ^ 53) (ht : t < 0) :
    (ofDigits r t).truncate = ((r / 2 ^ (-t).toNat : Nat) : Int) := by
  rw [← quotient_ofDigits hr ht, truncate]
  simp only [negative_ofDigits, Bool.false_eq_true, if_false]

end Binary

end NodeFlow.Decimal
