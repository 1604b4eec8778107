import Mathlib.Algebra.Order.Field.Rat
import Mathlib.Data.Nat.Log
import Mathlib.Tactic.FieldSimp
import Mathlib.Tactic.Linarith
import Mathlib.Tactic.NormNum
import Mathlib.Tactic.Ring
import PolicyEngine.Number.Basic

/-!
What a floating-point word stands for. Measured in units of the least positive word, the size of a finite word is a
natural number, and a word with a larger exponent is larger. So two finite words stand for the same rational only if
they are the same word, or both are zeros.
-/
namespace PolicyEngine.Double

/-! ## Sizes in units -/

/-- The size of a finite word in units of the least positive one, which is `2 ^ (-1074)`. -/
def units (d : Double) : Nat :=
  if d.exponentField = 0 then d.fractionField else (2 ^ 52 + d.fractionField) * 2 ^ (d.exponentField - 1)

theorem fractionField_lt (d : Double) : d.fractionField < 2 ^ 52 := Nat.mod_lt _ (Nat.two_pow_pos 52)

theorem exponentField_lt (d : Double) : d.exponentField < 2 ^ 11 := Nat.mod_lt _ (Nat.two_pow_pos 11)

/-- A scaled significand, counted in units of a power of two that is not above the scale. -/
theorem mkRat_scaled (m k : Nat) (p : Int) (h : -k ≤ p) :
    mkRat (m * Nat.pow 2 p.toNat) (Nat.pow 2 (-p).toNat) = (m * 2 ^ (p + k).toNat : Nat) / (2 ^ k : Rat) := by
  have hexp : p.toNat + k = (p + k).toNat + (-p).toNat := by omega
  rw [Rat.mkRat_eq_div]
  simp only [Nat.pow_eq]
  push_cast
  rw [div_eq_div_iff (pow_ne_zero _ two_ne_zero) (pow_ne_zero _ two_ne_zero), mul_assoc, mul_assoc, ← pow_add,
    ← pow_add, hexp]

theorem magnitude_eq_units (d : Double) : d.magnitude = d.units / (2 ^ 1074 : Rat) := by
  have hpower : -((1074 : Nat) : Int) ≤ d.power := by
    rw [power]
    split <;> omega
  rw [magnitude, mkRat_scaled d.significand 1074 d.power hpower]
  congr 2
  rw [units, significand, power]
  split
  · simp
  · next hnormal =>
    congr 2
    omega

theorem units_lt (d : Double) : d.units < 2 ^ (52 + d.exponentField) := by
  have hfraction := d.fractionField_lt
  rw [units]
  split
  · next hzero => simpa [hzero] using hfraction
  · next hnormal =>
    obtain ⟨e, he⟩ := Nat.exists_eq_succ_of_ne_zero hnormal
    rw [he, show 52 + (e + 1) = 53 + e by omega, pow_add, Nat.succ_sub_one]
    exact Nat.mul_lt_mul_of_pos_right (by omega) (Nat.two_pow_pos e)

theorem le_units {d : Double} (h : d.exponentField ≠ 0) : 2 ^ (51 + d.exponentField) ≤ d.units := by
  obtain ⟨e, he⟩ := Nat.exists_eq_succ_of_ne_zero h
  rw [units, if_neg h, he, show 51 + (e + 1) = 52 + e by omega, pow_add, Nat.succ_sub_one]
  exact Nat.mul_le_mul_right _ (Nat.le_add_right _ _)

/-- A larger exponent makes a larger word. -/
theorem units_lt_of_exponent {d e : Double} (h : d.exponentField < e.exponentField) : d.units < e.units := by
  calc d.units < 2 ^ (52 + d.exponentField) := d.units_lt
    _ ≤ 2 ^ (51 + e.exponentField) := Nat.pow_le_pow_right (by omega) (by omega)
    _ ≤ e.units := le_units (by omega)

theorem exponentField_eq_of_units {d e : Double} (h : d.units = e.units) : d.exponentField = e.exponentField := by
  rcases Nat.lt_trichotomy d.exponentField e.exponentField with hlt | heq | hgt
  · exact absurd h (units_lt_of_exponent hlt).ne
  · exact heq
  · exact absurd h (units_lt_of_exponent hgt).ne'

theorem fractionField_eq_of_units {d e : Double} (h : d.units = e.units) : d.fractionField = e.fractionField := by
  have hexponent := exponentField_eq_of_units h
  rw [units, units, hexponent] at h
  split at h
  · exact h
  · have hsum := Nat.eq_of_mul_eq_mul_right (Nat.two_pow_pos _) h
    omega

/-! ## Words from their fields -/

theorem eq_of_fields {d e : Double} (hsign : d.negative = e.negative) (hexponent : d.exponentField = e.exponentField)
    (hfraction : d.fractionField = e.fractionField) : d = e := by
  obtain ⟨x⟩ := d
  obtain ⟨y⟩ := e
  have hx := x.toNat_lt
  have hy := y.toNat_lt
  simp only [negative, exponentField, fractionField, decide_eq_decide, Nat.pow_eq] at hsign hexponent hfraction
  rw [Double.mk.injEq, ← UInt64.toNat_inj]
  norm_num at hsign hexponent hfraction hx hy
  omega

/-- A rational other than zero is the value of one word at most. -/
theorem eq_of_value {d e : Double} {r : Rat} (hd : d.value = .finite r) (he : e.value = .finite r) (hr : r ≠ 0) :
    d = e := by
  have hsigned : ∀ {w : Double}, w.value = .finite r → r = if w.negative then -w.magnitude else w.magnitude := by
    intro w hw
    rw [value] at hw
    split at hw
    · exact (Value.finite.inj hw).symm
    · split at hw <;> cases hw
  have hnonneg : ∀ w : Double, 0 ≤ w.magnitude := by
    intro w
    rw [magnitude_eq_units]
    exact div_nonneg (Nat.cast_nonneg _) (pow_nonneg zero_le_two _)
  have hd := hsigned hd
  have he := hsigned he
  have hboth : d.negative = e.negative ∧ d.magnitude = e.magnitude := by
    have hd₀ := hnonneg d
    have he₀ := hnonneg e
    cases hdn : d.negative <;> cases hen : e.negative <;> rw [hdn] at hd <;> rw [hen] at he <;>
      simp only [Bool.false_eq_true, if_true, if_false] at hd he
    · exact ⟨rfl, hd.symm.trans he⟩
    · exact absurd (by linarith) hr
    · exact absurd (by linarith) hr
    · exact ⟨rfl, neg_injective (hd.symm.trans he)⟩
  have hunits : d.units = e.units := by
    have hmagnitude := hboth.2
    rw [magnitude_eq_units, magnitude_eq_units, div_left_inj' (pow_ne_zero _ two_ne_zero)] at hmagnitude
    exact_mod_cast hmagnitude
  exact eq_of_fields hboth.1 (exponentField_eq_of_units hunits) (fractionField_eq_of_units hunits)

end PolicyEngine.Double

namespace PolicyEngine.Number

/-! ## What numbers contribute to a hash -/

/-- An integer value contributes itself, in every representation. -/
theorem hashKey_of_integer {n : Number} {r : Rat} (h : n.exact = .finite r) (hr : r.den = 1) :
    n.hashKey = .integer r.num := by
  cases n with
  | float d =>
    simp only [exact] at h
    simp only [hashKey]
    split at h <;> cases h
    simp only [hr, if_true]
  | _ =>
    cases h
    rfl

/-- A value that is no integer is that of a floating-point word, which it contributes. -/
theorem hashKey_of_fraction {n : Number} {r : Rat} (h : n.exact = .finite r) (hr : r.den ≠ 1) :
    ∃ d : Double, d.value = .finite r ∧ n.hashKey = .fraction d.bits := by
  cases n with
  | float d =>
    simp only [exact] at h
    simp only [hashKey]
    split at h <;> cases h
    next hvalue => exact ⟨d, hvalue, by simp only [hr, if_false]⟩
  | _ =>
    cases h
    exact absurd rfl hr

theorem hashKey_of_not_finite {n : Number} (h : ∀ r, n.exact ≠ .finite r) :
    n.hashKey = match n.exact with
      | .negInfinity => .negInfinity
      | .infinity => .infinity
      | _ => .nan := by
  cases n with
  | float d =>
    cases hvalue : d.value with
    | finite r => exact absurd (by simp only [exact, hvalue]) (h r)
    | infinity negative => cases negative <;> simp only [exact, hashKey, hvalue]
    | nan => simp only [exact, hashKey, hvalue]
  | _ => exact absurd rfl (h _)

/-- Numbers of one value contribute the same to a hash. -/
theorem hashKey_congr {m n : Number} (h : m.exact = n.exact) : m.hashKey = n.hashKey := by
  by_cases hfinite : ∃ r, n.exact = .finite r
  · obtain ⟨r, hn⟩ := hfinite
    have hm := h.trans hn
    by_cases hr : r.den = 1
    · rw [hashKey_of_integer hm hr, hashKey_of_integer hn hr]
    · obtain ⟨d, hd, hmkey⟩ := hashKey_of_fraction hm hr
      obtain ⟨e, he, hnkey⟩ := hashKey_of_fraction hn hr
      have hne : r ≠ 0 := by
        rintro rfl
        exact hr rfl
      rw [hmkey, hnkey, Double.eq_of_value hd he hne]
  · have hn : ∀ r, n.exact ≠ .finite r := fun r hr => hfinite ⟨r, hr⟩
    rw [hashKey_of_not_finite hn, hashKey_of_not_finite (h ▸ hn), h]

end PolicyEngine.Number
