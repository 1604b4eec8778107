import Mathlib.Data.Rat.Lemmas
import PolicyEngine.Number.Arithmetic

/-!
Arithmetic on integers. The result of adding, subtracting, multiplying, of a division that leaves no rest, of a remainder
and of an absolute value is the exact integer, however large it is, and it is kept in a machine word exactly when one
can hold it. Division and remainder fail for a divisor of zero and for no other.
-/
namespace PolicyEngine

/-! ## Integers among the values of words -/

theorem Double.toInt?_eq_some_iff {d : Double} {i : Int} : d.toInt? = some i ↔ d.value = .finite i := by
  rw [Double.toInt?]
  constructor
  · intro h
    split at h
    · next r hr =>
      split at h
      · next hden =>
        cases h
        rw [hr, Rat.coe_int_num_of_den_eq_one hden]
      · cases h
    · cases h
  · intro h
    rw [h]
    rfl

namespace Number

variable {a b r : Number} {m n i : Int}

theorem smallInt?_eq_some_iff {d : Double} :
    smallInt? d = some i ↔ d.value = .finite i ∧ i.natAbs ≤ safeInteger.natAbs := by
  rw [smallInt?, ← Double.toInt?_eq_some_iff]
  constructor
  · intro h
    split at h
    · next j hj =>
      split at h
      · next hle =>
        cases h
        exact ⟨hj, hle⟩
      · cases h
    · cases h
  · rintro ⟨hd, hle⟩
    rw [hd]
    exact if_pos hle

/-! ## Integers in their representations -/

/-- The integers that a machine word holds, with or without a sign. -/
def FitsWord (i : Int) : Prop := -0x8000000000000000 ≤ i ∧ i < 0x10000000000000000

theorem fitsWord_toNat (v : UInt64) : FitsWord v.toNat := by
  have hlt := v.toNat_lt
  constructor <;> omega

theorem fitsWord_toInt (v : Int64) : FitsWord v.toInt := by
  have hle := v.le_toInt
  have hlt := v.toInt_lt
  constructor <;> omega

def isWord : Number → Bool
  | .unsigned _ | .signed _ => true
  | _ => false

/-- A number holds an integer: exactly, in a machine word if and only if the integer fits in one, and else as a big
integer. -/
structure Holds (r : Number) (i : Int) : Prop where
  value : r.exactInt? = some i
  word : r.isWord = true ↔ FitsWord i
  big : ¬FitsWord i → r = .big i

theorem toNat_ofNat_of_fits (h : fitsUnsigned i = true) : ((UInt64.ofNat i.toNat).toNat : Int) = i := by
  simp only [fitsUnsigned, Bool.and_eq_true, decide_eq_true_iff] at h
  rw [UInt64.toNat_ofNat_of_lt' (by simp only [UInt64.size]; omega), Int.toNat_of_nonneg h.1]

theorem toInt_ofInt_of_fits (h : fitsSigned i = true) : (Int64.ofInt i).toInt = i := by
  simp only [fitsSigned, Bool.and_eq_true, decide_eq_true_iff] at h
  exact Int64.toInt_ofInt_of_le (by omega) (by omega)

theorem fitsWord_iff : FitsWord i ↔ fitsUnsigned i = true ∨ fitsSigned i = true := by
  simp only [FitsWord, fitsUnsigned, fitsSigned, Bool.and_eq_true, decide_eq_true_iff]
  omega

/-- The number made of an integer holds it. -/
theorem holds_ofInt (i : Int) : (ofInt i).Holds i := by
  rw [ofInt]
  split
  · next hunsigned =>
    have hfits : FitsWord i := fitsWord_iff.2 (.inl hunsigned)
    exact ⟨congrArg some (toNat_ofNat_of_fits hunsigned), iff_of_true rfl hfits, fun h => absurd hfits h⟩
  · next hunsigned =>
    split
    · next hsigned =>
      have hfits : FitsWord i := fitsWord_iff.2 (.inr hsigned)
      exact ⟨congrArg some (toInt_ofInt_of_fits hsigned), iff_of_true rfl hfits, fun h => absurd hfits h⟩
    · next hsigned =>
      have hfits : ¬FitsWord i := mt fitsWord_iff.1 (not_or_intro hunsigned hsigned)
      exact ⟨rfl, iff_of_false Bool.false_ne_true hfits, fun _ => rfl⟩

theorem exactInt?_ofInt (i : Int) : (ofInt i).exactInt? = some i := (holds_ofInt i).value

theorem holds_unsigned (v : UInt64) : (unsigned v).Holds v.toNat :=
  ⟨rfl, iff_of_true rfl (fitsWord_toNat v), fun h => absurd (fitsWord_toNat v) h⟩

/-- A number is worth the integer it is exactly. -/
theorem exact_of_exactInt? (h : a.exactInt? = some m) : a.exact = .finite m := by
  cases a with
  | float d => cases h
  | _ =>
    cases h
    rfl

/-- The number with an integer value is worth that value. -/
theorem exact_ofInt (i : Int) : (ofInt i).exact = .finite i := exact_of_exactInt? (exactInt?_ofInt i)

theorem exact_float_eq_finite_iff {d : Double} {q : Rat} : (float d).exact = .finite q ↔ d.value = .finite q := by
  rw [exact]
  cases d.value with
  | finite r => simp only [Exact.finite.injEq, Double.Value.finite.injEq]
  | infinity negative => cases negative <;> simp
  | nan => simp

theorem exact_of_toInt? {n : Number} {i : Int} (h : n.toInt? = some i) : n.exact = .finite i := by
  cases n with
  | float d => exact exact_float_eq_finite_iff.2 (smallInt?_eq_some_iff.1 h).1
  | _ => exact exact_of_exactInt? h

theorem toInt?_of_exact {n : Number} {i : Int} (h : n.exact = .finite i)
    (hi : i.natAbs ≤ safeInteger.natAbs) : n.toInt? = some i := by
  cases n with
  | float d => exact smallInt?_eq_some_iff.2 ⟨exact_float_eq_finite_iff.1 h, hi⟩
  | _ =>
    simp only [exact, Exact.finite.injEq, Rat.intCast_inj] at h
    simp only [toInt?, exactInt?, h]

theorem exactPair?_eq_some (ha : a.exactInt? = some m) (hb : b.exactInt? = some n) :
    exactPair? a b = some (m, n) := by
  simp only [exactPair?, ha, hb]

/-! ## Words of 128 bits -/

theorem toInt_wideUnsigned (v : UInt64) : (wideUnsigned v).toInt = v.toNat := by
  have hlt := v.toNat_lt
  have hwide : (wideUnsigned v).toNat = v.toNat := by
    rw [wideUnsigned, BitVec.toNat_setWidth, UInt64.toNat_toBitVec]
    exact Nat.mod_eq_of_lt (hlt.trans (by decide))
  rw [BitVec.toInt_eq_toNat_of_lt (by omega), hwide]

theorem toInt_wideSigned (v : Int64) : (wideSigned v).toInt = v.toInt :=
  BitVec.toInt_signExtend_of_le (by decide)

/-- The difference of words that fit in 64 bits, with or without a sign, does not overflow. -/
theorem toInt_sub_wide {v w : BitVec 128} (hv : FitsWord v.toInt) (hw : FitsWord w.toInt) :
    (v - w).toInt = v.toInt - w.toInt := by
  refine BitVec.toInt_sub_of_not_ssubOverflow ?_
  simp only [FitsWord] at hv hw
  simp only [BitVec.ssubOverflow, Bool.or_eq_true, decide_eq_true_iff]
  omega

/-- Nor does the absolute value, not even that of the least word of 64 bits. -/
theorem toInt_abs_wide {v : BitVec 128} (hv : FitsWord v.toInt) : v.abs.toInt = v.toInt.natAbs := by
  refine BitVec.toInt_abs_eq_natAbs_of_ne_intMin ?_
  rintro rfl
  exact absurd hv.1 (by decide)

theorem fitsWord_wideUnsigned (v : UInt64) : FitsWord (wideUnsigned v).toInt :=
  (toInt_wideUnsigned v).symm ▸ fitsWord_toNat v

theorem fitsWord_wideSigned (v : Int64) : FitsWord (wideSigned v).toInt :=
  (toInt_wideSigned v).symm ▸ fitsWord_toInt v

/-! ## Operations -/

theorem add_eq (ha : a.exactInt? = some m) (hb : b.exactInt? = some n) : a.add b = ofInt (m + n) := by
  simp only [add, exactPair?_eq_some ha hb]

theorem mul_eq (ha : a.exactInt? = some m) (hb : b.exactInt? = some n) : a.mul b = ofInt (m * n) := by
  simp only [mul, exactPair?_eq_some ha hb]

/-- Subtracting words of 128 bits gives the same as subtracting the integers. -/
theorem sub_eq (ha : a.exactInt? = some m) (hb : b.exactInt? = some n) : a.sub b = ofInt (m - n) := by
  have hpair := exactPair?_eq_some ha hb
  cases a with
  | float d => cases ha
  | unsigned x =>
    cases b with
    | unsigned y =>
      cases ha
      cases hb
      rw [sub, ofWide, toInt_sub_wide (fitsWord_wideUnsigned x) (fitsWord_wideUnsigned y), toInt_wideUnsigned,
        toInt_wideUnsigned]
    | _ => simp only [sub, hpair]
  | signed x =>
    cases b with
    | signed y =>
      cases ha
      cases hb
      rw [sub, ofWide, toInt_sub_wide (fitsWord_wideSigned x) (fitsWord_wideSigned y), toInt_wideSigned, toInt_wideSigned]
    | _ => simp only [sub, hpair]
  | big x => simp only [sub, hpair]

theorem isZero_iff (hb : b.exactInt? = some n) : b.isZero = true ↔ n = 0 := by
  cases b with
  | float d => cases hb
  | _ => simp only [isZero, hb, beq_iff_eq, Option.some_inj]

theorem isInteger_of_exactInt? (ha : a.exactInt? = some m) : a.isInteger = true := by
  cases a with
  | float d => cases ha
  | _ => rfl

theorem toInt?_of_exactInt? (ha : a.exactInt? = some m) : a.toInt? = some m := by
  cases a with
  | float d => cases ha
  | _ => exact ha

/-- A quotient that is an integer is exact. -/
theorem divide_eq (ha : a.exactInt? = some m) (hb : b.exactInt? = some n) (hn : n ≠ 0) (hdvd : n ∣ m) :
    a.divide b = .ok (ofInt (m.tdiv n)) := by
  rw [divide, if_neg (mt (isZero_iff hb).1 hn)]
  simp only [exactPair?_eq_some ha hb, if_pos (Int.tmod_eq_zero_of_dvd hdvd)]

/-- Division fails for a divisor of zero only. -/
theorem divide_eq_error_iff {e : ArithmeticError} :
    a.divide b = .error e ↔ b.isZero = true ∧ e = .divideByZero := by
  rw [divide]
  split
  · next hzero => exact ⟨fun h => by cases h; exact ⟨hzero, rfl⟩, fun h => congrArg _ h.2.symm⟩
  · next hzero =>
    refine ⟨fun h => ?_, fun h => absurd h.1 hzero⟩
    split at h
    · split at h <;> cases h
    · cases h

theorem modulo_eq (ha : a.exactInt? = some m) (hb : b.exactInt? = some n) :
    a.modulo b = if n = 0 then .error .moduloByZero else .ok (ofInt (m.tmod n)) := by
  simp only [modulo, isZero_iff hb, isInteger_of_exactInt? ha, isInteger_of_exactInt? hb, toInt?_of_exactInt? ha,
    toInt?_of_exactInt? hb, Bool.not_true, Bool.or_self, Bool.false_eq_true, if_false]

theorem holds_abs (ha : a.exactInt? = some m) : a.abs.Holds m.natAbs := by
  cases a with
  | float d => cases ha
  | unsigned v =>
    cases ha
    exact holds_unsigned v
  | signed v =>
    cases ha
    rw [abs, ofWide, toInt_abs_wide (fitsWord_wideSigned v), toInt_wideSigned]
    exact holds_ofInt _
  | big v =>
    cases ha
    exact holds_ofInt _

/-- A remainder other than zero has the sign of the dividend. -/
theorem tmod_eq_zero_or_sign (m n : Int) : m.tmod n = 0 ∨ (m.tmod n).sign = m.sign := by
  by_cases hdvd : n ∣ m
  · exact .inl (Int.tmod_eq_zero_of_dvd hdvd)
  · exact .inr (by rw [Int.sign_tmod, if_neg hdvd])

/-- Arithmetic on integers is exact and keeps its results in machine words exactly when they fit, at every size. -/
theorem integer_arithmetic (ha : a.exactInt? = some m) (hb : b.exactInt? = some n) :
    (a.add b).Holds (m + n) ∧ (a.sub b).Holds (m - n) ∧ (a.mul b).Holds (m * n) ∧
    ((∀ e, a.divide b = .error e ↔ n = 0 ∧ e = .divideByZero) ∧
      ∀ q, n ≠ 0 → m = n * q → ∃ r, a.divide b = .ok r ∧ r.Holds q) ∧
    ((∀ e, a.modulo b = .error e ↔ n = 0 ∧ e = .moduloByZero) ∧
      (n ≠ 0 → ∃ r i q, a.modulo b = .ok r ∧ r.Holds i ∧ m = n * q + i ∧ i.natAbs < n.natAbs ∧
        (i = 0 ∨ i.sign = m.sign))) ∧
    a.abs.Holds m.natAbs := by
  refine ⟨?_, ?_, ?_, ⟨fun e => ?_, fun q hn hq => ?_⟩, ⟨fun e => ?_, fun hn => ?_⟩, holds_abs ha⟩
  · rw [add_eq ha hb]
    exact holds_ofInt _
  · rw [sub_eq ha hb]
    exact holds_ofInt _
  · rw [mul_eq ha hb]
    exact holds_ofInt _
  · rw [divide_eq_error_iff, isZero_iff hb]
  · refine ⟨_, divide_eq ha hb hn (hq ▸ Int.dvd_mul_right n q), ?_⟩
    rw [hq, Int.mul_tdiv_cancel_left q hn]
    exact holds_ofInt q
  · rw [modulo_eq ha hb]
    split
    · next hn => exact ⟨fun h => by cases h; exact ⟨hn, rfl⟩, fun h => congrArg _ h.2.symm⟩
    · next hn => exact ⟨nofun, fun h => absurd h.1 hn⟩
  · refine ⟨ofInt (m.tmod n), m.tmod n, m.tdiv n, ?_, holds_ofInt _, (Int.mul_tdiv_add_tmod m n).symm, ?_,
      tmod_eq_zero_or_sign m n⟩
    · rw [modulo_eq ha hb, if_neg hn]
    · rw [Int.natAbs_tmod]
      exact Nat.mod_lt _ (Int.natAbs_pos.2 hn)

/-- The least word with a sign and minus one: all results but the difference leave the words with a sign. -/
theorem integer_arithmetic_least :
    (signed Int64.minValue).exactInt? = some (-0x8000000000000000) ∧ (signed (-1)).exactInt? = some (-1) ∧
    ((signed Int64.minValue).add (signed (-1))).Holds (-0x8000000000000001) ∧
    ((signed Int64.minValue).sub (signed (-1))).Holds (-0x7fffffffffffffff) ∧
    ((signed Int64.minValue).mul (signed (-1))).Holds 0x8000000000000000 ∧
    (∃ r, (signed Int64.minValue).divide (signed (-1)) = .ok r ∧ r.Holds 0x8000000000000000) ∧
    (signed Int64.minValue).abs.Holds 0x8000000000000000 := by
  have hleast : (signed Int64.minValue).exactInt? = some (-0x8000000000000000) := by decide
  have hone : (signed (-1)).exactInt? = some (-1) := by decide
  obtain ⟨hadd, hsub, hmul, ⟨-, hdivide⟩, -, habs⟩ := integer_arithmetic hleast hone
  exact ⟨hleast, hone, hadd, hsub, hmul, hdivide _ (by decide) (by decide), habs⟩

end Number
end PolicyEngine
