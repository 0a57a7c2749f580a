import NodeFlow.Json.Arithmetic
import NodeFlow.Proofs.Decimal.Layout

/-!
# Rounded quotients and products

A quotient of whole numbers that is rounded to a double, and a product of a double between 0 and 1
with a whole number, each cut to a whole number again.  As long as the whole numbers stay within 51
bits, rounding never carries the quotient over the next whole number, and the product never over its
whole factor.

Main results:

- Theorem `exists_rounded`: what rounding makes of a mantissa and an exponent.
- Theorem `ofFloat?_nearestFloat`: the exact value of the double nearest to a quotient.
- Theorem `Json.toWhole_dividedBy`: a quotient cut to a whole number is not above the exact one.
- Theorem `Json.floorOf_times`: a fraction of a whole number cut to a whole number lies between zero and
  that number.
-/

namespace NodeFlow.Decimal

open Float.Model Float.Model.UnpackedFloat

/-! ## Rounding a mantissa -/

private theorem mantissa_shiftRight (em : ExtendedMantissa) (k : Nat) :
    (em >>> k).mantissa = em.mantissa / 2 ^ k := by
  change (Nat.repeat ExtendedMantissa.shiftRightOne k em).mantissa = _
  induction k with
  | zero => exact (Nat.div_one _).symm
  | succ k ih =>
    rw [Nat.repeat, ExtendedMantissa.shiftRightOne, ih, Nat.div_div_eq_div_mul, Nat.pow_succ]

private theorem roundedMantissa_bounds (em : ExtendedMantissa) :
    em.mantissa ≤ em.roundedMantissa ∧ em.roundedMantissa ≤ em.mantissa + 1 := by
  obtain ⟨mantissa, round, sticky⟩ := em
  cases round <;> cases sticky <;>
    simp only [ExtendedMantissa.roundedMantissa, ExtendedMantissa.accuracy,
      Accuracy.roundToNearestEven] <;> omega

/-- The exponent to which a mantissa is rounded. -/
def target (m : Nat) (e : Int) : Int := max ((m.log2 : Int) + e - 52) (-1074)

private theorem targetExponent_eq (m : Nat) (e : Int) :
    Format.binary64.targetExponent (totalExponent m e) = target m e := by
  have hmin : Format.binary64.minExponent = -1074 := by decide
  have hbits : (Format.binary64.mantissaBits : Int) = 53 := by decide
  rw [Format.targetExponent, totalExponent, hmin, hbits, target]
  congr 1
  omega

private theorem shiftToTargetExponent_mantissa (m : Nat) (e : Int) :
    (shiftToTargetExponent Format.binary64 m e .exact).1.mantissa =
      m / 2 ^ (target m e - e).toNat := by
  simp only [shiftToTargetExponent, targetExponent_eq, shiftToExponent,
    ExtendedMantissa.ofMantissaAndAccuracy, mantissa_shiftRight]

private theorem shiftToTargetExponent_exponent (m : Nat) (e : Int) :
    (shiftToTargetExponent Format.binary64 m e .exact).2 = e + (target m e - e).toNat := by
  simp only [shiftToTargetExponent, targetExponent_eq, shiftToExponent]

section Rounded

variable {m : Nat} {e : Int} (hwide : 52 ≤ m.log2 ∨ e ≤ -1074)

include hwide

/-- A mantissa that has all bits that it needs only loses bits. -/
theorem le_target : e ≤ target m e := by
  unfold target
  omega

/-- The first rounding leaves 53 bits at most, or one more unit. -/
theorem isRounded_roundedMantissa (hm : m ≠ 0) (hhigh : target m e ≤ 970) :
    Binary.IsRounded (shiftToTargetExponent Format.binary64 m e .exact).1.roundedMantissa
        (target m e) ∧
      (shiftToTargetExponent Format.binary64 m e .exact).1.roundedMantissa ≤
        m / 2 ^ (target m e - e).toNat + 1 := by
  have hle := le_target hwide
  have hbounds := roundedMantissa_bounds (shiftToTargetExponent Format.binary64 m e .exact).1
  rw [shiftToTargetExponent_mantissa] at hbounds
  have hlog := Nat.lt_log2_self (n := m)
  have hself := Nat.log2_self_le hm
  have hquotient : m / 2 ^ (target m e - e).toNat < 2 ^ 53 := by
    rw [Nat.div_lt_iff_lt_mul (Nat.two_pow_pos _), ← Nat.pow_add]
    apply hlog.trans_le
    apply Nat.pow_le_pow_right Nat.zero_lt_two
    unfold target
    omega
  refine ⟨⟨by omega, le_max_right _ _, hhigh, ?_⟩, hbounds.2⟩
  by_cases hlow : target m e = -1074
  · exact .inr hlow
  · left
    have hshift : m.log2 = 52 + (target m e - e).toNat := by
      unfold target at hlow ⊢
      omega
    apply le_trans _ hbounds.1
    rw [Nat.le_div_iff_mul_le (Nat.two_pow_pos _), ← Nat.pow_add, ← hshift]
    exact hself

end Rounded

/-- A rounded mantissa is shifted again only if rounding has carried it to the next bit. -/
theorem unpacked_ofDigits {r : Nat} {t : Int} (h : Binary.IsRounded r t) :
    (Binary.ofDigits r t).unpacked =
      if h : r / 2 ^ (target r t - t).toNat = 0 then .zero .positive
      else .finite .positive (r / 2 ^ (target r t - t).toNat) (t + (target r t - t).toNat)
        (Nat.pos_of_ne_zero h) := by
  obtain ⟨hr, hlow, -, -⟩ := h
  have htarget : target r t = max ((r.log2 : Int) + t - 52) (-1074) := rfl
  by_cases hcarry : r < 2 ^ 53
  · have hlog : r.log2 ≤ 52 := by
      by_cases hzero : r = 0
      · simp [hzero]
      · have hlt := (Nat.log2_lt hzero).2 hcarry
        omega
    have hstay : (target r t - t).toNat = 0 := by omega
    rw [Binary.ofDigits, if_pos hcarry, Binary.unpacked]
    simp only [hstay, Nat.pow_zero, Nat.div_one]
    split
    · rfl
    · simp [Binary.sign]
  · have hdigits : r = 2 ^ 53 := by omega
    have hlog : r.log2 = 53 := by rw [hdigits, Nat.log2_two_pow]
    have hstep : (target r t - t).toNat = 1 := by
      rw [hlog] at htarget
      omega
    rw [Binary.ofDigits, if_neg hcarry, Binary.unpacked]
    simp only [hstep]
    simp only [hdigits]
    norm_num
    rfl

/-- What rounding makes of a mantissa that has all bits that it needs. -/
theorem exists_rounded {m : Nat} {e : Int} (hm : m ≠ 0) (hwide : 52 ≤ m.log2 ∨ e ≤ -1074)
    (hhigh : target m e ≤ 970) : ∃ r, Binary.IsRounded r (target m e) ∧
      r ≤ m / 2 ^ (target m e - e).toNat + 1 ∧
      roundWithAccuracy Format.binary64 .positive m e .exact =
        (Binary.ofDigits r (target m e)).unpacked := by
  have hle := le_target hwide
  have hexponent : e + ((target m e - e).toNat : Int) = target m e := by omega
  rcases isRounded_roundedMantissa hwide hm hhigh with ⟨hrounded, hdigits⟩
  refine ⟨_, hrounded, hdigits, ?_⟩
  rw [unpacked_ofDigits hrounded]
  unfold roundWithAccuracy
  simp only [shiftToTargetExponent_exponent, hexponent, shiftToTargetExponent_mantissa]

/-! ## Rounding a quotient -/

private theorem div_le_roundDiv (num den : Nat) : num / den ≤ roundDiv num den := by
  unfold roundDiv
  simp only
  split <;> omega

private theorem roundDiv_le_succ (num den : Nat) : roundDiv num den ≤ num / den + 1 := by
  unfold roundDiv
  simp only
  split <;> omega

section Places

variable {num den a : Nat} (ha : num.log2 + a = 53 + den.log2)

include ha

/-- With as many places as the lengths of the two numbers suggest, a quotient has 53 or 54 bits. -/
theorem scaled_quotient_bounds (hnum : 0 < num) (hden : 0 < den) :
    2 ^ 52 ≤ num * 2 ^ a / den ∧ num * 2 ^ a / den < 2 ^ 54 := by
  have hnumLow := Nat.log2_self_le (n := num) (by omega)
  have hnumHigh := Nat.lt_log2_self (n := num)
  have hdenLow := Nat.log2_self_le (n := den) (by omega)
  have hdenHigh := Nat.lt_log2_self (n := den)
  rw [Nat.le_div_iff_mul_le hden, Nat.div_lt_iff_lt_mul hden]
  constructor
  · calc 2 ^ 52 * den ≤ 2 ^ 52 * 2 ^ (den.log2 + 1) := Nat.mul_le_mul_left _ hdenHigh.le
      _ = 2 ^ num.log2 * 2 ^ a := by rw [← Nat.pow_add, ← Nat.pow_add]; congr 1; omega
      _ ≤ num * 2 ^ a := Nat.mul_le_mul_right _ hnumLow
  · calc num * 2 ^ a < 2 ^ (num.log2 + 1) * 2 ^ a :=
          Nat.mul_lt_mul_of_pos_right hnumHigh (Nat.two_pow_pos a)
      _ = 2 ^ 54 * 2 ^ den.log2 := by rw [← Nat.pow_add, ← Nat.pow_add]; congr 1; omega
      _ ≤ 2 ^ 54 * den := Nat.mul_le_mul_left _ hdenLow

/-- One place less where there are 54 bits leaves 53. -/
theorem chosen_quotient_bounds (hnum : 0 < num) (hden : 0 < den) (hlog : num.log2 < 52) {b : Nat}
    (hb : b = if num * 2 ^ a / den < 2 ^ 53 then a else a - 1) :
    2 ^ 52 ≤ num * 2 ^ b / den ∧ num * 2 ^ b / den < 2 ^ 53 := by
  have hquotient := scaled_quotient_bounds ha hnum hden
  subst hb
  split
  · exact ⟨hquotient.1, by assumption⟩
  · rename_i hwide
    have hdouble : num * 2 ^ a = num * 2 ^ (a - 1) * 2 := by
      rw [Nat.mul_assoc, ← Nat.pow_succ]
      congr 2
      omega
    have hhalf : num * 2 ^ (a - 1) / den = num * 2 ^ a / den / 2 := by
      rw [hdouble, Nat.div_div_eq_div_mul, Nat.mul_div_mul_right _ _ Nat.zero_lt_two]
    omega

/-- The bits of a rounded quotient, by the places that it is rounded to. -/
theorem nearestBits_eq (hlog : num.log2 < 52) {b : Nat}
    (hb : b = if num * 2 ^ a / den < 2 ^ 53 then a else a - 1) :
    nearestBits num den =
      if roundDiv (num * 2 ^ min b 1074) den < 2 ^ 52 then roundDiv (num * 2 ^ min b 1074) den
      else (1074 - min b 1074) * 2 ^ 52 + roundDiv (num * 2 ^ min b 1074) den := by
  have hspread : (num.log2 : Int) - den.log2 - 53 = -(a : Int) := by omega
  have hexponent : max (if num * 2 ^ a / den < 2 ^ 53 then -(a : Int) else -(a : Int) + 1) (-1074) =
      -((min b 1074 : Nat) : Int) := by
    split at hb
    · rw [if_pos (by assumption)]
      omega
    · rw [if_neg (by assumption)]
      omega
  have hscaled : ∀ k : Nat, 0 < k → ¬ 0 ≤ -(k : Int) := by omega
  have hpositive : 0 < min b 1074 := by
    split at hb <;> omega
  have hplaces : (-((min b 1074 : Nat) : Int) + 1074).toNat = 1074 - min b 1074 := by omega
  unfold nearestBits
  simp only [hspread, Nat.pow_eq, if_neg (hscaled a (by omega)), Int.neg_neg, Int.toNat_natCast,
    hexponent, if_neg (hscaled _ hpositive), hplaces]

end Places

/-- The places after the point to which a quotient of a number of at most 52 bits is rounded: so many
that 53 bits are left, if there are so many. -/
theorem exists_places {num den : Nat} (hnum : 0 < num) (hden : 0 < den) (hsmall : num < 2 ^ 52) :
    ∃ d, 1 ≤ d ∧ d ≤ 1074 ∧ num * 2 ^ d / den < 2 ^ 53 ∧
      (2 ^ 52 ≤ num * 2 ^ d / den ∨ d = 1074) ∧
      nearestBits num den = if roundDiv (num * 2 ^ d) den < 2 ^ 52 then roundDiv (num * 2 ^ d) den
        else (1074 - d) * 2 ^ 52 + roundDiv (num * 2 ^ d) den := by
  have hlog : num.log2 < 52 := (Nat.log2_lt (by omega)).2 hsmall
  obtain ⟨a, ha⟩ : ∃ a : Nat, num.log2 + a = 53 + den.log2 := ⟨53 + den.log2 - num.log2, by omega⟩
  obtain ⟨b, hb⟩ : ∃ b, b = if num * 2 ^ a / den < 2 ^ 53 then a else a - 1 := ⟨_, rfl⟩
  have hfit := chosen_quotient_bounds ha hnum hden hlog hb
  refine ⟨min b 1074, ?_, Nat.min_le_right _ _, ?_, ?_, nearestBits_eq ha hlog hb⟩
  · split at hb <;> omega
  · apply lt_of_le_of_lt (Nat.div_le_div_right _) hfit.2
    exact Nat.mul_le_mul_left _ (Nat.pow_le_pow_right Nat.zero_lt_two (Nat.min_le_left _ _))
  · by_cases hlow : b ≤ 1074
    · rw [Nat.min_eq_left hlow]
      exact .inl hfit.1
    · exact .inr (Nat.min_eq_right (by omega))

/-- The exact value of the double nearest to a quotient. -/
theorem ofFloat?_nearestFloat {num den : Nat} (hnum : 0 < num) (hden : 0 < den)
    (hsmall : num < 2 ^ 52) : ∃ d : Nat, 1 ≤ d ∧
      Binary.IsRounded (roundDiv (num * 2 ^ d) den) (-d) ∧
      Binary.ofFloat? (nearestFloat false num den) =
        some (Binary.ofDigits (roundDiv (num * 2 ^ d) den) (-d)) := by
  obtain ⟨d, hpos, hlow, hdigits, hnormal, hbits⟩ := exists_places hnum hden hsmall
  have hle := roundDiv_le_succ (num * 2 ^ d) den
  have hge := div_le_roundDiv (num * 2 ^ d) den
  have hrounded : Binary.IsRounded (roundDiv (num * 2 ^ d) den) (-d) :=
    ⟨by omega, by omega, by omega, by omega⟩
  refine ⟨d, hpos, hrounded, ?_⟩
  have hsame : nearestBits num den =
      (-(d : Int) + 1074).toNat * 2 ^ 52 + roundDiv (num * 2 ^ d) den := by
    rw [hbits]
    split
    · have hlowest : d = 1074 := by omega
      rw [hlowest]
      omega
    · congr 2
      omega
  have hfinite : nearestBits num den < 2047 * 2 ^ 52 := by
    rw [hsame]
    omega
  have hfloat : nearestFloat false num den = Float.ofBits (UInt64.ofNat (nearestBits num den)) := by
    unfold nearestFloat
    simp only [Nat.pow_eq, beq_iff_eq, Bool.false_eq_true, if_false]
    rw [if_neg (by omega), Nat.min_eq_left hfinite.le]
  rw [hfloat, hsame, hrounded.ofFloat?_ofBits]

/-- A rounded quotient that is cut to a whole number is not above the exact one.  It would have to be
within half a unit of its last place below the next whole number, and numbers of 52 bits have no such
quotients. -/
theorem truncate_nearestFloat {num den : Nat} (hnum : 0 < num) (hden : 0 < den)
    (hsmall : num < 2 ^ 52) : ∃ b, Binary.ofFloat? (nearestFloat false num den) = some b ∧
      ∃ k : Nat, b.truncate = k ∧ k * den ≤ num := by
  obtain ⟨d, hpos, hrounded, hvalue⟩ := ofFloat?_nearestFloat hnum hden hsmall
  refine ⟨_, hvalue, roundDiv (num * 2 ^ d) den / 2 ^ d, ?_, ?_⟩
  · rw [Binary.truncate_ofDigits hrounded.digits_le (by omega), Int.neg_neg, Int.toNat_natCast]
  · by_contra habove
    have hnormal := hrounded.normal
    have hround := roundDiv_le (num * 2 ^ d) hden
    generalize hq : roundDiv (num * 2 ^ d) den = q at *
    have hcut := Nat.div_mul_le_self q (2 ^ d)
    by_cases hdigits : 2 ^ 52 ≤ q
    · have hnext : num + 1 ≤ q / 2 ^ d * den := by omega
      have hgap : 2 * 2 ^ d ≤ den := by nlinarith
      nlinarith
    · have hplaces : 52 ≤ d := by omega
      have hzero : q / 2 ^ d = 0 := by
        apply Nat.div_eq_of_lt
        exact lt_of_lt_of_le (not_le.1 hdigits) (Nat.pow_le_pow_right Nat.zero_lt_two hplaces)
      rw [hzero] at habove
      omega

/-- The exact value of a whole number as a double. -/
theorem ofFloat?_floatOfInt {k : Nat} (hk : 0 < k) (hsmall : k < 2 ^ 52) : ∃ b, ∃ d : Nat,
    Binary.ofFloat? (floatOfInt k) = some b ∧ b.negative = false ∧ b.mantissa = k * 2 ^ d ∧
      b.exponent = -d := by
  obtain ⟨d, hpos, hrounded, hvalue⟩ := ofFloat?_nearestFloat hk Nat.one_pos hsmall
  have hfloat : floatOfInt k = nearestFloat false k 1 := by
    have hnot : ¬ (k : Int) < 0 := by omega
    rw [floatOfInt, Int.natAbs_natCast, decide_eq_false hnot]
  have hexact : roundDiv (k * 2 ^ d) 1 = k * 2 ^ d := by
    simp [roundDiv, Nat.mod_one]
  rw [hexact] at hrounded hvalue
  rw [hfloat]
  have hle := hrounded.digits_le
  by_cases hcarry : k * 2 ^ d < 2 ^ 53
  · refine ⟨_, d, hvalue, Binary.negative_ofDigits, ?_, ?_⟩
    · rw [Binary.ofDigits, if_pos hcarry]
    · rw [Binary.ofDigits, if_pos hcarry]
  · obtain ⟨d, rfl⟩ := Nat.exists_eq_add_of_le' hpos
    refine ⟨_, d, hvalue, Binary.negative_ofDigits, ?_, ?_⟩
    · rw [Binary.ofDigits, if_neg hcarry]
      rw [Nat.pow_succ, ← Nat.mul_assoc] at hle hcarry
      simp only
      omega
    · rw [Binary.ofDigits, if_neg hcarry]
      simp only
      omega

/-! ## Rounding a product -/

private theorem mul_eq {x y : Float} {b c : Binary} (hx : Binary.ofFloat? x = some b)
    (hy : Binary.ofFloat? y = some c) : x * y = Float.ofModel (Float.Model.pack
      (UnpackedFloat.mul Format.binary64 b.unpacked c.unpacked)) := by
  rw [← Binary.unpack_of_ofFloat? hx, ← Binary.unpack_of_ofFloat? hy]
  rfl

private theorem ofFloat?_mul_zero {x y : Float} {b c : Binary} (hx : Binary.ofFloat? x = some b)
    (hy : Binary.ofFloat? y = some c) (hnone : b.mantissa = 0 ∨ c.mantissa = 0) :
    ∃ z, Binary.ofFloat? (x * y) = some z ∧ z.floor = 0 := by
  have hproduct : ∃ negative, UnpackedFloat.mul Format.binary64 b.unpacked c.unpacked =
      (Binary.mk negative 0 (-1074)).unpacked := by
    have hzero : ∀ s s' : Sign, ∃ negative, UnpackedFloat.zero (s * s') =
        (Binary.mk negative 0 (-1074)).unpacked := by
      intro s s'
      cases s <;> cases s'
      · exact ⟨false, rfl⟩
      · exact ⟨true, rfl⟩
      · exact ⟨true, rfl⟩
      · exact ⟨false, rfl⟩
    unfold Binary.unpacked
    by_cases hb : b.mantissa = 0
    · rw [dif_pos hb]
      split <;> exact hzero _ _
    · rw [dif_neg hb, dif_pos (hnone.resolve_left hb)]
      exact hzero _ _
  obtain ⟨negative, hproduct⟩ := hproduct
  rw [mul_eq hx hy, hproduct, Binary.ofFloat?_pack ⟨by norm_num, by norm_num, by norm_num, .inr rfl⟩]
  refine ⟨_, rfl, ?_⟩
  change Int.fdiv (if negative then -((0 : Nat) : Int) else ((0 : Nat) : Int)) _ = 0
  cases negative <;> exact Int.zero_fdiv _

/-- A value below one has a mantissa below the inverse of its unit. -/
theorem mantissa_lt_of_lt_one {b : Binary} (hlt : b.quotient.1 < b.quotient.2) (hpos : b.mantissa ≠ 0) :
    b.exponent < 0 ∧ b.mantissa < 2 ^ (-b.exponent).toNat := by
  unfold Binary.quotient at hlt
  split at hlt
  · have hfactor : 0 < b.mantissa * Nat.pow 2 b.exponent.toNat :=
      Nat.mul_pos (by omega) (Nat.two_pow_pos _)
    simp only at hlt
    omega
  · exact ⟨by omega, hlt⟩

private theorem ofFloat?_nearestFloat_zero (den : Nat) :
    Binary.ofFloat? (nearestFloat false 0 den) = some (Binary.ofDigits 0 (-1074)) := by
  have hrounded : Binary.IsRounded 0 (-1074) := ⟨by norm_num, le_rfl, by norm_num, .inr rfl⟩
  exact hrounded.ofFloat?_ofBits

private theorem ofFloat?_floatOfInt_zero :
    Binary.ofFloat? (floatOfInt 0) = some (Binary.ofDigits 0 (-1074)) :=
  ofFloat?_nearestFloat_zero 1

/-- The double of a whole number. -/
theorem exists_floatOfInt {k : Nat} (hk : k ≤ 2 ^ 51) :
    ∃ c, Binary.ofFloat? (floatOfInt k) = some c ∧ (k = 0 → c.mantissa = 0) := by
  by_cases hzero : k = 0
  · subst hzero
    exact ⟨_, ofFloat?_floatOfInt_zero, fun _ => rfl⟩
  · obtain ⟨c, d, hc, -⟩ := ofFloat?_floatOfInt (Nat.pos_of_ne_zero hzero) (by omega)
    exact ⟨c, hc, fun h => absurd h hzero⟩

/-- What is below a whole number of at most 51 bits is not above it when it is rounded and cut to a
whole number.  The unit of the last place is a quarter at most, and so is what rounding adds. -/
theorem exists_floor_rounded {m : Nat} {e : Int} (hm : m ≠ 0) (hwide : 52 ≤ m.log2 ∨ e ≤ -1074)
    {k : Nat} (hk : k ≤ 2 ^ 51) (hbelow : m < k * 2 ^ (-e).toNat) :
    ∃ z : Binary, z.IsCanonical ∧
      roundWithAccuracy Format.binary64 .positive m e .exact = z.unpacked ∧
      ∃ j : Nat, z.floor = j ∧ j ≤ k := by
  have hle := le_target hwide
  have hlow : target m e ≤ -2 := by
    have hlog : m.log2 < 51 + (-e).toNat := by
      rw [Nat.log2_lt hm, Nat.pow_add]
      exact hbelow.trans_le (Nat.mul_le_mul_right _ hk)
    unfold target
    omega
  obtain ⟨r, hrounded, hr, hround⟩ := exists_rounded hm hwide (by omega)
  refine ⟨_, hrounded.isCanonical, hround, _,
    Binary.floor_ofDigits hrounded.digits_le (by omega), ?_⟩
  have hsplit : (-e).toNat = (-target m e).toNat + (target m e - e).toNat := by omega
  have hdigits : m / 2 ^ (target m e - e).toNat < k * 2 ^ (-target m e).toNat := by
    rw [Nat.div_lt_iff_lt_mul (Nat.two_pow_pos _), Nat.mul_assoc, ← Nat.pow_add, ← hsplit]
    exact hbelow
  apply Nat.div_le_of_le_mul
  rw [Nat.mul_comm]
  omega

/-- A double between zero and one times a whole number of at most 51 bits, rounded and cut to a whole
number, lies between zero and that number. -/
theorem floor_mul {x : Float} {b : Binary} (hx : Binary.ofFloat? x = some b)
    (hsign : b.mantissa = 0 ∨ b.negative = false) (hlt : b.quotient.1 < b.quotient.2) {k : Nat}
    (hk : k ≤ 2 ^ 51) : ∃ z, Binary.ofFloat? (x * floatOfInt k) = some z ∧
      ∃ j : Nat, z.floor = j ∧ j ≤ k := by
  by_cases hzero : b.mantissa = 0 ∨ k = 0
  · obtain ⟨c, hy, hc⟩ := exists_floatOfInt hk
    obtain ⟨z, hz, hfloor⟩ := ofFloat?_mul_zero hx hy (hzero.imp_right hc)
    exact ⟨z, hz, 0, hfloor, Nat.zero_le k⟩
  · rcases not_or.1 hzero with ⟨hpos, hzero⟩
    obtain ⟨hexponent, hmantissa⟩ := mantissa_lt_of_lt_one hlt hpos
    obtain ⟨c, d, hy, hcsign, hcmantissa, hcexponent⟩ :=
      ofFloat?_floatOfInt (Nat.pos_of_ne_zero hzero) (by omega)
    have hcpos : c.mantissa ≠ 0 := by
      rw [hcmantissa]
      exact Nat.mul_ne_zero hzero (Nat.two_pow_pos d).ne'
    have hproduct : UnpackedFloat.mul Format.binary64 b.unpacked c.unpacked =
        roundWithAccuracy Format.binary64 .positive (b.mantissa * c.mantissa)
          (b.exponent + c.exponent) .exact := by
      rw [Binary.unpacked, dif_neg hpos, Binary.unpacked, dif_neg hcpos, Binary.sign, Binary.sign,
        hsign.resolve_left hpos, hcsign]
      rfl
    have hnonzero : b.mantissa * c.mantissa ≠ 0 := Nat.mul_ne_zero hpos hcpos
    have hwide : 52 ≤ (b.mantissa * c.mantissa).log2 ∨ b.exponent + c.exponent ≤ -1074 := by
      rcases (Binary.ofFloat?_isCanonical hy).normal with hnormal | hlowest
      · left
        rw [Nat.le_log2 hnonzero]
        exact hnormal.trans (Nat.le_mul_of_pos_left _ (Nat.pos_of_ne_zero hpos))
      · right
        omega
    have hbelow : b.mantissa * c.mantissa < k * 2 ^ (-(b.exponent + c.exponent)).toNat := by
      have hplaces : (-(b.exponent + c.exponent)).toNat = (-b.exponent).toNat + d := by omega
      rw [hcmantissa, hplaces, Nat.pow_add]
      calc b.mantissa * (k * 2 ^ d)
          < 2 ^ (-b.exponent).toNat * (k * 2 ^ d) :=
            Nat.mul_lt_mul_of_pos_right hmantissa (Nat.mul_pos (by omega) (Nat.two_pow_pos d))
        _ = k * (2 ^ (-b.exponent).toNat * 2 ^ d) := by ring
    obtain ⟨z, hcanonical, hround, hfloor⟩ := exists_floor_rounded hnonzero hwide hk hbelow
    rw [mul_eq hx hy, hproduct, hround, Binary.ofFloat?_pack hcanonical]
    exact ⟨z, rfl, hfloor⟩

end NodeFlow.Decimal

namespace NodeFlow.Json

open Decimal

variable {v w x : Json} {m n k : Int}

/-! ## Rounded arithmetic on values -/

/-- The quotient of whole numbers of at most 52 bits, cut to a whole number, is not above the exact
one. -/
theorem toWhole_dividedBy (hv : v.number? = some (.int m)) (hw : w.number? = some (.int n))
    (hm : 0 ≤ m) (hsmall : m < 2 ^ 52) (hn : 0 < n) :
    ∃ q k, v.dividedBy w = .ok q ∧ q.toWhole = .ok k ∧ 0 ≤ k ∧ k * n ≤ m := by
  obtain ⟨b, hb, k, hk, hle⟩ : ∃ b, Binary.ofFloat? (nearestFloat false m.natAbs n.natAbs) = some b ∧
      ∃ k : Nat, b.truncate = k ∧ k * n.natAbs ≤ m.natAbs := by
    by_cases hzero : m = 0
    · rw [hzero]
      refine ⟨_, ofFloat?_nearestFloat_zero _, 0, ?_, by simp⟩
      rw [Binary.truncate_ofDigits (Nat.zero_le _) (by norm_num), Nat.zero_div]
    · exact truncate_nearestFloat (by omega) (by omega) (by omega)
  have hsign : (decide (m < 0) != decide (n < 0) && m != 0) = false := by
    rw [decide_eq_false (by omega), decide_eq_false (by omega)]
    rfl
  refine ⟨.float (nearestFloat false m.natAbs n.natAbs), k, ?_, ?_, by omega, ?_⟩
  · unfold dividedBy
    rw [hv, hw]
    simp only [hsign, hb]
    rw [if_neg (by omega)]
    rfl
  · rw [toWhole, finite, hb, ← hk]
    rfl
  · have hcast : ((k * n.natAbs : Nat) : Int) ≤ (m.natAbs : Nat) := by exact_mod_cast hle
    rw [Nat.cast_mul, Int.natAbs_of_nonneg hm, Int.natAbs_of_nonneg hn.le] at hcast
    exact hcast

/-- Numbers come before each other as their values do. -/
theorem before_of_number? {a b : Number} (hv : v.number? = some a) (hw : w.number? = some b) :
    v.before w = .ok (a.compare? b == some .lt) := by
  cases v <;> cases hv <;> cases w <;> cases hw <;> rfl

/-- A number between zero, which it may be, and one, which it is not. -/
def IsFraction (x : Json) : Prop := x.before (.int 0) = .ok false ∧ x.before (.int 1) = .ok true

/-- A whole number that is a fraction is zero. -/
theorem IsFraction.eq_zero (h : x.IsFraction) (hx : x.number? = some (.int n)) : n = 0 := by
  have hlow := h.1
  have hhigh := h.2
  rw [before_of_number? hx rfl] at hlow hhigh
  simp only [Number.compare?, Except.ok.injEq, beq_eq_false_iff_ne, beq_iff_eq, ne_eq,
    Option.some.injEq, compare_lt_iff_lt] at hlow hhigh
  omega

/-- The exact value of a double that is a fraction. -/
theorem IsFraction.exists_value {y : Float} (h : (Json.float y).IsFraction) :
    ∃ b, Binary.ofFloat? y = some b ∧ (b.mantissa = 0 ∨ b.negative = false) ∧
      b.quotient.1 < b.quotient.2 := by
  have hlow := h.1
  have hhigh := h.2
  rw [before_of_number? rfl rfl] at hlow hhigh
  simp only [Number.compare?, Except.ok.injEq, beq_eq_false_iff_ne, beq_iff_eq, ne_eq] at hlow hhigh
  cases hy : Binary.ofFloat? y with
  | none =>
    -- an infinite double is on the same side of both bounds
    simp only [Number.compareIntFloat?, hy] at hlow hhigh
    exact absurd hhigh hlow
  | some b =>
    simp only [Number.compareIntFloat?, hy, Option.map_some, Option.some.injEq, Ordering.swap_eq_lt,
      compare_gt_iff_gt, zero_mul, one_mul] at hlow hhigh
    have hden : 0 < b.quotient.2 := by
      unfold Binary.quotient
      split
      · exact Nat.one_pos
      · exact Nat.two_pow_pos _
    have hzero : b.quotient.1 = 0 → b.mantissa = 0 := by
      unfold Binary.quotient
      split
      · intro h
        exact (Nat.mul_eq_zero.1 h).resolve_right (Nat.two_pow_pos _).ne'
      · exact id
    cases hnegative : b.negative with
    | false =>
      rw [hnegative, if_neg Bool.false_ne_true] at hhigh
      exact ⟨b, rfl, .inr hnegative, by omega⟩
    | true =>
      rw [hnegative, if_pos rfl] at hlow
      have hnone : b.quotient.1 = 0 := by omega
      exact ⟨b, rfl, .inl (hzero hnone), by omega⟩

/-- A fraction of a whole number of at most 51 bits, cut to a whole number, lies between zero and that
number. -/
theorem floorOf_times (hx : x.IsFraction) (hk : 0 ≤ k) (hsmall : k ≤ 2 ^ 51) :
    ∃ v j, x.times (.int k) = .ok v ∧ v.floorOf = .ok j ∧ 0 ≤ j ∧ j ≤ k := by
  cases hnumber : x.number? with
  | none =>
    have hlow := hx.1
    cases x <;> cases hnumber <;> cases hlow
  | some a =>
    cases a with
    | int n =>
      have hzero := hx.eq_zero hnumber
      refine ⟨.int (n * k), n * k, ?_, rfl, ?_⟩
      · unfold times onNumbers
        rw [hnumber]
        rfl
      · rw [hzero, zero_mul]
        exact ⟨le_rfl, hk⟩
    | float y =>
      have hfloat : x = .float y := by
        cases x <;> cases hnumber
        rfl
      rw [hfloat] at hx ⊢
      obtain ⟨b, hb, hsign, hlt⟩ := hx.exists_value
      obtain ⟨k, rfl⟩ := Int.eq_ofNat_of_zero_le hk
      obtain ⟨z, hz, j, hfloor, hle⟩ := floor_mul hb hsign hlt (k := k) (by omega)
      have hbound : (k : Int).natAbs < doubleBound := by
        have hlarge : 2 ^ 52 ≤ doubleBound := by decide +kernel
        omega
      refine ⟨.float (y * floatOfInt k), j, ?_, ?_, by omega, by omega⟩
      · unfold times onNumbers
        simp only [number?, numberToDouble, intToDouble, if_pos hbound]
        rfl
      · unfold floorOf
        simp only [number?, finite, hz, Except.map, hfloor]

end NodeFlow.Json
