import Mathlib.Algebra.Order.Field.Power
import PolicyEngine.Proofs.Words

/-!
Rounding to floating-point words. The scale at which a ratio is rounded is found from the two logarithms alone. A ratio
that is the size of a finite word is rounded to that word, whatever way it is written, so the value of a word is
rounded to the word itself; an integer of many words that is the value of a word is not changed by looking at its
leading bits only.
-/
namespace PolicyEngine.Double

variable {d e : Double} {num den : Nat} {r : Rat} {i : Int}

/-! ## Powers of two -/

theorem two_zpow (p : Int) : (2 : Rat) ^ p = 2 ^ p.toNat / 2 ^ (-p).toNat := by
  rcases Int.le_total 0 p with hp | hp
  · obtain ⟨n, rfl⟩ := Int.eq_ofNat_of_zero_le hp
    rw [zpow_natCast, Int.toNat_natCast, Int.toNat_of_nonpos (by omega), pow_zero, div_one]
  · obtain ⟨n, hn⟩ := Int.eq_ofNat_of_zero_le (Int.neg_nonneg_of_nonpos hp)
    rw [Int.toNat_of_nonpos hp, hn, Int.toNat_natCast, pow_zero, ← neg_neg p, hn, zpow_neg, zpow_natCast, one_div]

/-- A power of two beside a ratio, compared without fractions. -/
theorem scaled_le_iff (hden : den ≠ 0) (p : Int) :
    den * Nat.pow 2 p.toNat ≤ num * Nat.pow 2 (-p).toNat ↔ (2 : Rat) ^ p ≤ num / den := by
  have hden : (0 : Rat) < den := by exact_mod_cast Nat.pos_of_ne_zero hden
  have hpow : (0 : Rat) < 2 ^ (-p).toNat := pow_pos two_pos _
  rw [two_zpow, div_le_div_iff₀ hpow hden, mul_comm (2 ^ p.toNat : Rat)]
  simp only [Nat.pow_eq]
  exact_mod_cast Iff.rfl

/-- A ratio lies between the powers of two that the logarithms of its terms give. -/
theorem ratio_bounds (hnum : num ≠ 0) (hden : den ≠ 0) :
    (2 : Rat) ^ ((num.log2 : Int) - den.log2 - 1) < num / den ∧
      (num / den : Rat) < 2 ^ ((num.log2 : Int) - den.log2 + 1) := by
  have hden' : (0 : Rat) < den := by exact_mod_cast Nat.pos_of_ne_zero hden
  have hnumlow : (2 : Rat) ^ (num.log2 : Int) ≤ num := by exact_mod_cast Nat.log2_self_le hnum
  have hnumhigh : (num : Rat) < 2 ^ ((num.log2 : Int) + 1) := by exact_mod_cast Nat.lt_log2_self
  have hdenlow : (2 : Rat) ^ (den.log2 : Int) ≤ den := by exact_mod_cast Nat.log2_self_le hden
  have hdenhigh : (den : Rat) < 2 ^ ((den.log2 : Int) + 1) := by exact_mod_cast Nat.lt_log2_self
  constructor
  · rw [lt_div_iff₀ hden']
    calc (2 : Rat) ^ ((num.log2 : Int) - den.log2 - 1) * den
        < 2 ^ ((num.log2 : Int) - den.log2 - 1) * 2 ^ ((den.log2 : Int) + 1) :=
          mul_lt_mul_of_pos_left hdenhigh (zpow_pos two_pos _)
      _ = 2 ^ (num.log2 : Int) := by
          rw [← zpow_add₀ two_ne_zero]
          congr 1
          omega
      _ ≤ num := hnumlow
  · rw [div_lt_iff₀ hden']
    calc (num : Rat) < 2 ^ ((num.log2 : Int) + 1) := hnumhigh
      _ = 2 ^ ((num.log2 : Int) - den.log2 + 1) * 2 ^ (den.log2 : Int) := by
          rw [← zpow_add₀ two_ne_zero]
          congr 1
          omega
      _ ≤ 2 ^ ((num.log2 : Int) - den.log2 + 1) * den := mul_le_mul_of_nonneg_left hdenlow (zpow_nonneg two_pos.le _)

/-- The scale leaves 53 bits before the point, or is the least there is. -/
theorem scaleOf_eq {k : Int} (hnum : num ≠ 0) (hden : den ≠ 0) (hlow : (2 : Rat) ^ k ≤ num / den)
    (hhigh : (num / den : Rat) < 2 ^ (k + 1)) : scaleOf num den = max (-1074) (k - 52) := by
  obtain ⟨hbelow, habove⟩ := ratio_bounds hnum hden
  have hk : k < (num.log2 : Int) - den.log2 + 1 := (zpow_lt_zpow_iff_right₀ one_lt_two).1 (hlow.trans_lt habove)
  have hk' : (num.log2 : Int) - den.log2 - 1 < k + 1 := (zpow_lt_zpow_iff_right₀ one_lt_two).1 (hbelow.trans hhigh)
  have hguess : (num.log2 : Int) - den.log2 - 52 + 52 = num.log2 - den.log2 := by omega
  simp only [scaleOf, hguess, decide_eq_true_iff]
  split
  · next hle =>
    have hlt := (zpow_lt_zpow_iff_right₀ one_lt_two).1 (((scaled_le_iff hden _).1 hle).trans_lt hhigh)
    omega
  · next hle =>
    have hlt := (zpow_lt_zpow_iff_right₀ one_lt_two).1
      (hlow.trans_lt (not_le.1 (mt (scaled_le_iff hden _).2 hle)))
    omega

/-! ## Sizes of words -/

/-- The size of a finite word is its significand at the scale of its power. -/
theorem magnitude_eq (d : Double) : d.magnitude = d.significand * (2 : Rat) ^ d.power := by
  rw [magnitude, Rat.mkRat_eq_div, two_zpow]
  simp only [Nat.pow_eq]
  push_cast
  rw [mul_div_assoc]

theorem magnitude_nonneg (d : Double) : 0 ≤ d.magnitude := by
  rw [magnitude_eq]
  exact mul_nonneg (Nat.cast_nonneg _) (zpow_nonneg two_pos.le _)

theorem bits_eq (d : Double) :
    d.bits.toNat = signBits d.negative + (d.exponentField * Nat.pow 2 52 + d.fractionField) := by
  have hlt := d.bits.toNat_lt
  simp only [negative, exponentField, fractionField, signBits, decide_eq_true_iff, Nat.pow_eq]
  norm_num at hlt ⊢
  split <;> omega

/-- The scale at which the size of a word is rounded is the power of the word. -/
theorem scaleOf_magnitude (hnum : num ≠ 0) (hden : den ≠ 0) (h : (num / den : Rat) = d.magnitude) :
    scaleOf num den = d.power := by
  have hfraction := d.fractionField_lt
  have hsize : (0 : Rat) < num / den :=
    div_pos (by exact_mod_cast Nat.pos_of_ne_zero hnum) (by exact_mod_cast Nat.pos_of_ne_zero hden)
  have hne : d.significand ≠ 0 := by
    intro hzero
    rw [h, magnitude_eq, hzero, Nat.cast_zero, zero_mul] at hsize
    exact hsize.false
  have hlow : (2 : Rat) ^ (d.significand.log2 : Int) ≤ d.significand := by exact_mod_cast Nat.log2_self_le hne
  have hhigh : (d.significand : Rat) < 2 ^ ((d.significand.log2 : Int) + 1) := by exact_mod_cast Nat.lt_log2_self
  have hscale : (0 : Rat) < 2 ^ d.power := zpow_pos two_pos _
  rw [scaleOf_eq (k := d.significand.log2 + d.power) hnum hden]
  · by_cases hsub : d.exponentField = 0
    · have hlog : d.significand.log2 < 52 := by
        rw [Nat.log2_lt hne, significand, if_pos hsub]
        exact hfraction
      have hpower : d.power = -1074 := if_pos hsub
      omega
    · have hlog : d.significand.log2 = 52 := by
        rw [Nat.log2_eq_iff hne, significand, if_neg hsub]
        simp only [Nat.pow_eq]
        omega
      have hpower : d.power = d.exponentField - 1075 := if_neg hsub
      omega
  · rw [h, magnitude_eq, zpow_add₀ two_ne_zero]
    exact mul_le_mul_of_nonneg_right hlow hscale.le
  · rw [h, magnitude_eq, add_right_comm, zpow_add₀ two_ne_zero]
    exact mul_lt_mul_of_pos_right hhigh hscale

/-! ## Values of words are rounded to the words -/

theorem divHalfEven_mul (q : Nat) (hden : 0 < den) : divHalfEven (q * den) den = q := by
  simp only [divHalfEven, Nat.mul_mod_left, Nat.mul_div_cancel q hden]
  exact if_pos hden

theorem exponentField_lt_top (hfinite : d.isFinite = true) : d.exponentField < topExponent := by
  have hlt := d.exponentField_lt
  rw [isFinite, bne_iff_ne] at hfinite
  exact lt_of_le_of_ne (Nat.le_of_lt_succ hlt) hfinite

/-- The significand behind the exponent gives the fields of the word back. -/
theorem word_eq (d : Double) :
    (d.power + 1074).toNat * Nat.pow 2 52 + d.significand = d.exponentField * Nat.pow 2 52 + d.fractionField := by
  rw [power, significand]
  split
  · next hsub => rw [hsub, Int.toNat_of_nonpos (by omega)]
  · next hnormal =>
    simp only [Nat.pow_eq]
    omega

/-- A ratio that is the size of a finite word is rounded to that word. -/
theorem ofRatio_magnitude (hfinite : d.isFinite = true) (hnum : num ≠ 0) (hden : den ≠ 0)
    (h : (num / den : Rat) = d.magnitude) : ofRatio d.negative num den = d := by
  have hexact : num * Nat.pow 2 (-d.power).toNat = d.significand * (den * Nat.pow 2 d.power.toNat) := by
    have hden' : (den : Rat) ≠ 0 := Nat.cast_ne_zero.2 hden
    rw [magnitude_eq, two_zpow, ← mul_div_assoc, div_eq_div_iff hden' (pow_ne_zero _ two_ne_zero), mul_right_comm,
      mul_assoc] at h
    simp only [Nat.pow_eq]
    exact_mod_cast h
  have htop : ¬topExponent * Nat.pow 2 52 ≤ d.exponentField * Nat.pow 2 52 + d.fractionField := by
    have hlt := exponentField_lt_top hfinite
    have hfraction := d.fractionField_lt
    simp only [topExponent, Nat.pow_eq] at *
    omega
  have hpos : 0 < den * Nat.pow 2 d.power.toNat := Nat.mul_pos (Nat.pos_of_ne_zero hden) (Nat.two_pow_pos _)
  simp only [ofRatio, if_neg hnum, scaleOf_magnitude hnum hden h, hexact, divHalfEven_mul _ hpos, word_eq, if_neg htop,
    ← bits_eq, UInt64.ofNat_toNat]

/-! ## Values -/

theorem value_eq_finite_iff :
    d.value = .finite r ↔ d.isFinite = true ∧ r = if d.negative then -d.magnitude else d.magnitude := by
  rw [value]
  split
  · next hfinite => simp only [Value.finite.injEq, hfinite, true_and, eq_comm]
  · next hfinite =>
    refine iff_of_false (fun h => ?_) fun h => hfinite h.1
    split at h <;> cases h

theorem isFinite_of_value (h : d.value = .finite r) : d.isFinite = true := (value_eq_finite_iff.1 h).1

theorem abs_value (h : d.value = .finite r) : |r| = d.magnitude := by
  obtain ⟨-, rfl⟩ := value_eq_finite_iff.1 h
  split
  · rw [abs_neg, abs_of_nonneg d.magnitude_nonneg]
  · rw [abs_of_nonneg d.magnitude_nonneg]

theorem negative_of_infinity {negative : Bool} (h : d.value = .infinity negative) : d.negative = negative := by
  rw [value] at h
  split at h
  · cases h
  · split at h
    · cases h
    · exact Value.infinity.inj h

theorem negative_of_finite (h : d.value = .finite r) (hr : r ≠ 0) : d.negative = decide (r < 0) := by
  have hnonneg := d.magnitude_nonneg
  obtain ⟨-, hvalue⟩ := value_eq_finite_iff.1 h
  cases hsign : d.negative with
  | false =>
    rw [hvalue, hsign]
    exact (decide_eq_false (not_lt.2 hnonneg)).symm
  | true =>
    rw [hsign, if_pos rfl] at hvalue
    have hle : r ≤ 0 := hvalue.symm ▸ neg_nonpos.2 hnonneg
    exact (decide_eq_true (lt_of_le_of_ne hle hr)).symm

/-- The rationals that are the values of words. -/
def Representable (r : Rat) : Prop := ∃ d : Double, d.value = .finite r

/-- The value of a word is rounded to the word. -/
theorem ofRat_of_value (h : d.value = .finite r) (hr : r ≠ 0) : ofRat r = d := by
  have hsize : (r.num.natAbs / r.den : Rat) = d.magnitude := by
    rw [← abs_value h, Rat.abs_def, Rat.divInt_eq_div, Int.cast_natCast, Int.cast_natCast]
  rw [ofRat, ← negative_of_finite h hr]
  exact ofRatio_magnitude (isFinite_of_value h) (by simpa using hr) r.den_nz hsize

theorem value_zero (negative : Bool) : (zero negative).value = .finite 0 := by
  cases negative <;> decide +kernel

theorem ofRat_zero : ofRat 0 = zero false := rfl

/-- Rounding keeps the values of words. -/
theorem value_ofRat (h : Representable r) : (ofRat r).value = .finite r := by
  obtain ⟨d, hd⟩ := h
  by_cases hr : r = 0
  · rw [hr, ofRat_zero, value_zero]
  · rw [ofRat_of_value hd hr, hd]

theorem ofInt_eq (i : Int) : ofInt i = ofRat i := by
  rw [ofInt, ofRat]
  simp

/-! ## Integers -/

/-- Bits are seen in a number only if it is not zero. -/
theorem anyLowBit_zero (width count : Nat) : anyLowBit width count 0 = false := by
  induction count with
  | zero => rfl
  | succ count ih => rw [anyLowBit, Nat.zero_mod, Nat.zero_div, ih, bne_self_eq_false, Bool.false_or]

/-- Where nothing follows the leading bits they are the whole number. -/
theorem leadingBits_mul {n : Nat} (h : 2 ^ trailingLength n ∣ n) :
    leadingBits n * Nat.pow 2 (trailingLength n) = n := by
  simp only [leadingBits, Nat.pow_eq, Nat.mod_eq_zero_of_dvd h, anyLowBit_zero, Bool.false_eq_true, if_false]
  exact Nat.div_mul_cancel h

theorem ofLongInt_eq (h : 2 ^ trailingLength i.natAbs ∣ i.natAbs) : ofLongInt i = ofInt i := by
  simp only [ofLongInt, leadingBits_mul h]
  rfl

/-- An integer within 64 bits has no bits after the leading ones. -/
theorem ofLongInt_of_lt (h : i.natAbs < 2 ^ 64) : ofLongInt i = ofInt i := by
  have hlength : trailingLength i.natAbs = 0 := by
    rw [trailingLength, bitLength]
    split
    · rfl
    · next hne =>
      have hlog := (Nat.log2_lt hne).2 h
      omega
  refine ofLongInt_eq ?_
  rw [hlength]
  exact Nat.one_dvd _

/-- The bits of a significand are among the leading ones. -/
theorem trailingLength_le {s t : Nat} (hs : s < 2 ^ 53) : trailingLength (s * 2 ^ t) ≤ t := by
  rw [trailingLength, bitLength]
  split
  · omega
  · next hne =>
    have hlog : (s * 2 ^ t).log2 < 53 + t := by
      rw [Nat.log2_lt hne, pow_add]
      exact Nat.mul_lt_mul_of_pos_right hs (Nat.two_pow_pos t)
    omega

theorem significand_lt (d : Double) : d.significand < 2 ^ 53 := by
  have hfraction := d.fractionField_lt
  rw [significand, Nat.pow_eq]
  split <;> omega

/-- An integer that is the value of a word is a significand times a power of two. -/
theorem exists_significand (h : Representable i) : ∃ s t : Nat, s < 2 ^ 53 ∧ i.natAbs = s * 2 ^ t := by
  obtain ⟨d, hd⟩ := h
  have hsize : i.natAbs * 2 ^ (-d.power).toNat = d.significand * 2 ^ d.power.toNat := by
    have hsize : (i.natAbs : Rat) * 2 ^ (-d.power).toNat = d.significand * 2 ^ d.power.toNat := by
      rw [Nat.cast_natAbs, Int.cast_abs, abs_value hd, magnitude_eq, two_zpow, ← mul_div_assoc,
        div_mul_cancel₀ _ (pow_ne_zero _ two_ne_zero)]
    exact_mod_cast hsize
  rcases Int.le_total 0 d.power with hnonneg | hnonpos
  · rw [Int.toNat_of_nonpos (Int.neg_nonpos_of_nonneg hnonneg), pow_zero, mul_one] at hsize
    exact ⟨_, _, d.significand_lt, hsize⟩
  · rw [Int.toNat_of_nonpos hnonpos, pow_zero, mul_one] at hsize
    refine ⟨i.natAbs, 0, ?_, by rw [pow_zero, mul_one]⟩
    calc i.natAbs ≤ i.natAbs * 2 ^ (-d.power).toNat := Nat.le_mul_of_pos_right _ (Nat.two_pow_pos _)
      _ = d.significand := hsize
      _ < 2 ^ 53 := d.significand_lt

/-- An integer of any length that is the value of a word is found from its leading bits. -/
theorem ofLongInt_of_representable (h : Representable i) : ofLongInt i = ofInt i := by
  obtain ⟨s, t, hs, hi⟩ := exists_significand h
  refine ofLongInt_eq ?_
  rw [hi]
  exact (Nat.pow_dvd_pow 2 (trailingLength_le hs)).mul_left s

/-! ### Words from fields -/

/-- The word with given fields. -/
def ofFields (negative : Bool) (exponent fraction : Nat) : Double :=
  ⟨UInt64.ofNat (signBits negative + (exponent * 2 ^ 52 + fraction))⟩

/-- A word has the fields that it is made of. -/
theorem fields_ofFields {exponent fraction : Nat} (hexponent : exponent < 2 ^ 11) (hfraction : fraction < 2 ^ 52)
    (negative : Bool) : (ofFields negative exponent fraction).negative = negative ∧
      (ofFields negative exponent fraction).exponentField = exponent ∧
      (ofFields negative exponent fraction).fractionField = fraction := by
  have hbits : (ofFields negative exponent fraction).bits.toNat =
      signBits negative + (exponent * 2 ^ 52 + fraction) := by
    refine UInt64.toNat_ofNat_of_lt' ?_
    have hsign : signBits negative ≤ 2 ^ 63 := by cases negative <;> decide
    rw [UInt64.size]
    omega
  simp only [Double.negative, exponentField, fractionField, hbits, signBits, Nat.pow_eq]
  cases negative
  · simp only [Bool.false_eq_true, if_false, decide_eq_false_iff_not]
    omega
  · simp only [if_true, decide_eq_true_iff]
    omega

/-- A significand with its leading bit, at the scale of a power in the range of exponents, is the value of a word. -/
theorem representable_normal {m : Nat} {p : Int} (hlow : 2 ^ 52 ≤ m) (hhigh : m < 2 ^ 53) (hleast : -1074 ≤ p)
    (hgreatest : p ≤ 971) (negative : Bool) :
    Representable (if negative then -(m * 2 ^ p) else m * 2 ^ p) := by
  have hexponent : (p + 1075).toNat < 2 ^ 11 := by omega
  have hfraction : m - 2 ^ 52 < 2 ^ 52 := by omega
  obtain ⟨hnegative, hexponent, hfraction⟩ := fields_ofFields hexponent hfraction negative
  refine ⟨ofFields negative (p + 1075).toNat (m - 2 ^ 52), ?_⟩
  have hnormal : (p + 1075).toNat ≠ 0 := by omega
  have htop : (p + 1075).toNat ≠ topExponent := by
    rw [topExponent]
    omega
  have hpower : ((p + 1075).toNat : Int) - 1075 = p := by omega
  rw [value_eq_finite_iff, isFinite, magnitude_eq, significand, power, hnegative, hexponent, hfraction, if_neg hnormal,
    if_neg hnormal, hpower, Nat.pow_eq, Nat.add_sub_cancel' hlow]
  exact ⟨bne_iff_ne.2 htop, rfl⟩

/-- A significand times a power of two is the value of a word, as long as the power is not too large. -/
theorem representable_scaled {s t : Nat} (hs : s < 2 ^ 53) (ht : t ≤ 971) (hi : i.natAbs = s * 2 ^ t) :
    Representable i := by
  by_cases hzero : s = 0
  · refine ⟨zero false, ?_⟩
    rw [hzero, zero_mul, Int.natAbs_eq_zero] at hi
    rw [value_zero, hi, Int.cast_zero]
  -- moved up until its leading bit is the leading one of a significand
  have hlog : s.log2 ≤ 52 := Nat.lt_succ_iff.1 ((Nat.log2_lt hzero).2 hs)
  have hlow : 2 ^ 52 ≤ s * 2 ^ (52 - s.log2) := by
    calc 2 ^ 52 = 2 ^ s.log2 * 2 ^ (52 - s.log2) := by rw [← pow_add, Nat.add_sub_cancel' hlog]
      _ ≤ s * 2 ^ (52 - s.log2) := Nat.mul_le_mul_right _ (Nat.log2_self_le hzero)
  have hhigh : s * 2 ^ (52 - s.log2) < 2 ^ 53 := by
    calc s * 2 ^ (52 - s.log2) < 2 ^ (s.log2 + 1) * 2 ^ (52 - s.log2) :=
          Nat.mul_lt_mul_of_pos_right Nat.lt_log2_self (Nat.two_pow_pos _)
      _ = 2 ^ 53 := by
        rw [← pow_add]
        congr 1
        omega
  have hsize : ((s * 2 ^ (52 - s.log2) : Nat) : Rat) * 2 ^ ((t : Int) - (52 - s.log2 : Nat)) = |(i : Rat)| := by
    rw [zpow_sub₀ two_ne_zero, zpow_natCast, zpow_natCast, ← Int.cast_abs, Int.abs_eq_natAbs, Int.cast_natCast, hi]
    push_cast
    field_simp
  have hword := representable_normal hlow hhigh (p := (t : Int) - (52 - s.log2 : Nat)) (by omega) (by omega)
    (decide (i < 0))
  rw [hsize] at hword
  rcases Int.lt_or_le i 0 with hi | hi
  · have hneg : |(i : Rat)| = -i := abs_of_neg (by exact_mod_cast hi)
    rwa [decide_eq_true hi, if_pos rfl, hneg, neg_neg] at hword
  · have hpos : |(i : Rat)| = i := abs_of_nonneg (by exact_mod_cast hi)
    rwa [decide_eq_false (not_lt.2 hi), if_neg Bool.false_ne_true, hpos] at hword

/-- Up to `2 ^ 53` every integer is the value of a word. -/
theorem representable_of_le (hi : i.natAbs ≤ 2 ^ 53) : Representable i := by
  rcases hi.lt_or_eq with hlt | heq
  · exact representable_scaled hlt (Nat.zero_le _) (by rw [pow_zero, mul_one])
  · exact representable_scaled (s := 1) (t := 53) (by norm_num) (by norm_num) (by rw [heq, one_mul])

/-! ## Operations on equal words -/

/-- Words of one value have one sign, unless they are zeros or not numbers. -/
theorem negative_congr (h : d.value = e.value) (hzero : d.value ≠ .finite 0) (hnan : d.value ≠ .nan) :
    d.negative = e.negative := by
  cases hd : d.value with
  | finite r =>
    have hr : r ≠ 0 := by
      rintro rfl
      exact hzero hd
    rw [negative_of_finite hd hr, negative_of_finite (h ▸ hd) hr]
  | infinity negative => rw [negative_of_infinity hd, negative_of_infinity (h ▸ hd)]
  | nan => exact absurd hd hnan

/-- The opposite word differs in its sign alone. -/
theorem neg_eq (d : Double) : d.neg = ofFields (!d.negative) d.exponentField d.fractionField := by
  have hbits := d.bits_eq
  rw [neg, ofFields]
  cases hsign : d.negative with
  | false =>
    rw [hsign] at hbits
    refine (if_neg Bool.false_ne_true).trans (congrArg (fun n => Double.mk (UInt64.ofNat n)) ?_)
    rw [hbits, signBits, signBits, if_neg Bool.false_ne_true, Nat.zero_add]
    exact Nat.add_comm _ _
  | true =>
    rw [hsign] at hbits
    refine (if_pos rfl).trans (congrArg (fun n => Double.mk (UInt64.ofNat n)) ?_)
    rw [hbits, signBits, if_pos rfl, Nat.add_sub_cancel_left]
    exact (Nat.zero_add _).symm

theorem value_neg (d : Double) :
    d.neg.value = match d.value with
      | .finite r => .finite (-r)
      | .infinity negative => .infinity !negative
      | .nan => .nan := by
  obtain ⟨hnegative, hexponent, hfraction⟩ := fields_ofFields d.exponentField_lt d.fractionField_lt (!d.negative)
  rw [← neg_eq] at hnegative hexponent hfraction
  have hfinite : d.neg.isFinite = d.isFinite := by rw [isFinite, isFinite, hexponent]
  have hnan : d.neg.isNaN = d.isNaN := by rw [isNaN, isNaN, hexponent, hfraction]
  have hsize : d.neg.magnitude = d.magnitude := by
    simp only [magnitude, significand, power, hexponent, hfraction]
  simp only [value, hnegative, hfinite, hnan, hsize]
  split
  · cases d.negative <;> simp
  · split <;> rfl

variable {d' e' : Double}

theorem value_add_congr (hd : d.value = d'.value) (he : e.value = e'.value) :
    (d.add e).value = (d'.add e').value := by
  simp only [add, ← hd, ← he]
  cases hdv : d.value with
  | nan => rfl
  | infinity s =>
    cases hev : e.value with
    | nan => rfl
    | infinity t =>
      dsimp only
      split
      · rw [← hd]
      · rfl
    | finite y => exact hd
  | finite x =>
    cases hev : e.value with
    | nan => rfl
    | infinity t => exact he
    | finite y =>
      dsimp only
      split
      · rw [value_zero, value_zero]
      · rfl

theorem value_sub_congr (hd : d.value = d'.value) (he : e.value = e'.value) :
    (d.sub e).value = (d'.sub e').value :=
  value_add_congr hd (by rw [value_neg, value_neg, he])

theorem value_mul_congr (hd : d.value = d'.value) (he : e.value = e'.value) :
    (d.mul e).value = (d'.mul e').value := by
  simp only [mul, ← hd, ← he]
  cases hdv : d.value with
  | nan => rfl
  | infinity s =>
    rw [negative_of_infinity hdv, negative_of_infinity (hd.symm.trans hdv)]
    cases hev : e.value with
    | nan => rfl
    | infinity t => rw [negative_of_infinity hev, negative_of_infinity (he.symm.trans hev)]
    | finite y =>
      dsimp only
      split
      · rfl
      · next hy => rw [negative_of_finite hev hy, negative_of_finite (he.symm.trans hev) hy]
  | finite x =>
    cases hev : e.value with
    | nan => rfl
    | infinity t =>
      rw [negative_of_infinity hev, negative_of_infinity (he.symm.trans hev)]
      dsimp only
      split
      · rfl
      · next hx => rw [negative_of_finite hdv hx, negative_of_finite (hd.symm.trans hdv) hx]
    | finite y =>
      dsimp only
      split
      · rw [value_zero, value_zero]
      · rfl

/-- Quotients by words of one value and one sign are equal. -/
theorem value_div_congr (hd : d.value = d'.value) (he : e.value = e'.value)
    (hsign : e.value ≠ .nan → e.negative = e'.negative) : (d.div e).value = (d'.div e').value := by
  simp only [div, ← hd, ← he]
  cases hev : e.value with
  | nan => cases d.value <;> rfl
  | infinity t =>
    cases d.value with
    | finite x => simp only [value_zero]
    | _ => rfl
  | finite y =>
    have hsign := hsign (by rw [hev]; exact nofun)
    cases hdv : d.value with
    | nan => rfl
    | infinity s => rw [hsign, negative_of_infinity hdv, negative_of_infinity (hd.symm.trans hdv)]
    | finite x =>
      by_cases hx : x = 0
      · simp only [if_pos hx]
        split
        · rfl
        · rw [value_zero, value_zero]
      · rw [hsign, negative_of_finite hdv hx, negative_of_finite (hd.symm.trans hdv) hx]

/-! ## Exact results -/

variable {x y : Rat}

/-- A sum that is the value of a word is exact. -/
theorem value_add (hd : d.value = .finite x) (he : e.value = .finite y) (h : Representable (x + y)) :
    (d.add e).value = .finite (x + y) := by
  simp only [add, hd, he]
  split
  · next hzero => rw [value_zero, hzero]
  · exact value_ofRat h

theorem value_sub (hd : d.value = .finite x) (he : e.value = .finite y) (h : Representable (x - y)) :
    (d.sub e).value = .finite (x - y) := by
  rw [sub_eq_add_neg] at h ⊢
  exact value_add hd (by rw [value_neg, he]) h

theorem value_mul (hd : d.value = .finite x) (he : e.value = .finite y) (h : Representable (x * y)) :
    (d.mul e).value = .finite (x * y) := by
  simp only [mul, hd, he]
  split
  · next hzero => rw [value_zero, hzero]
  · exact value_ofRat h

theorem value_div (hd : d.value = .finite x) (he : e.value = .finite y) (hy : y ≠ 0) (h : Representable (x / y)) :
    (d.div e).value = .finite (x / y) := by
  simp only [div, hd, he, if_neg hy]
  split
  · next hzero => rw [value_zero, hzero, zero_div]
  · exact value_ofRat h

end PolicyEngine.Double
