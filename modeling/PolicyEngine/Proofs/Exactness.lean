import Mathlib.Algebra.Order.Field.Rat
import Mathlib.Data.List.TakeWhile
import Mathlib.Tactic.NormNum
import Mathlib.Tactic.Ring
import PolicyEngine.Proofs.Integers
import PolicyEngine.Proofs.Literals
import PolicyEngine.Proofs.TermOrder

/-!
Integers that are read exactly. A literal is worth the sum of its digits, each times a power of ten that its place and the
exponent determine. A literal of digits only, and one whose exponent reaches past its fraction but for zeros at the end,
is read as the integer that it is worth, however large that is. The decimal text of an integer is read as that integer.
-/
namespace PolicyEngine

variable {cs ds zeros : List Char}

/-! ## White space in front -/

theorem Text.trimChars_append {cut : Char → Bool} {front : List Char} (hfront : ∀ c ∈ front, cut c = true)
    (hcs : ∀ c ∈ cs, cut c = false) : trimChars cut (front ++ cs) = cs := by
  have hstart : (front ++ cs).dropWhile cut = cs :=
    (takeWhile_dropWhile_iff.2 ⟨rfl, hfront, fun c hc => hcs c (List.mem_of_mem_head? hc)⟩).2
  have hend : cs.reverse.dropWhile cut = cs.reverse :=
    (takeWhile_dropWhile_iff.2 ⟨(List.nil_append _).symm, List.forall_mem_nil _,
      fun c hc => hcs c (List.mem_reverse.1 (List.mem_of_mem_head? hc))⟩).2
  rw [trimChars, hstart, hend, List.reverse_reverse]

theorem isBlank_of_isDigit {c : Char} (h : isDigit c = true) : Text.isBlank c = false := by
  have hrange : 48 ≤ c.toNat ∧ c.toNat ≤ 57 := by
    simpa [isDigit, Char.le_def, UInt32.le_iff_toNat_le] using h
  simp only [Text.isBlank, Text.inRanges, Text.blankRanges, List.any_cons, List.any_nil, Bool.or_false,
    Bool.or_eq_false_iff, Bool.and_eq_false_imp, decide_eq_true_eq, decide_eq_false_iff_not]
  omega

theorem Sign.not_blank {negative : Bool} {sign : List Char} (h : Sign negative sign) :
    ∀ c ∈ sign, Text.isBlank c = false := by
  cases h with
  | none => exact List.forall_mem_nil _
  | plus => exact List.forall_mem_singleton.2 (by decide)
  | minus => exact List.forall_mem_singleton.2 (by decide)

theorem IntegerText.not_blank {i : Int} (h : IntegerText i cs) : ∀ c ∈ cs, Text.isBlank c = false := by
  obtain ⟨negative, sign, digits, hsign, -, hdigits, rfl, -⟩ := h
  intro c hc
  rcases List.mem_append.1 hc with hc | hc
  · exact hsign.not_blank c hc
  · exact isBlank_of_isDigit (hdigits c hc)

/-! ## What digits are worth -/

/-- The value of digits at falling decimal places, from the given one on. -/
def placeValue : Int → List Char → Rat
  | _, [] => 0
  | place, c :: cs => digitValue c * 10 ^ place + placeValue (place - 1) cs

theorem placeValue_append (place : Int) (cs ds : List Char) :
    placeValue place (cs ++ ds) = placeValue place cs + placeValue (place - cs.length) ds := by
  induction cs generalizing place with
  | nil => simp [placeValue]
  | cons c cs ih =>
    have hplace : place - ((c :: cs).length : Int) = place - 1 - cs.length := by
      rw [List.length_cons]
      omega
    rw [List.cons_append, placeValue, placeValue, ih, hplace, add_assoc]

theorem placeValue_zeros (place : Int) (h : ∀ c ∈ zeros, c = '0') : placeValue place zeros = 0 := by
  induction zeros generalizing place with
  | nil => rfl
  | cons c zeros ih =>
    rw [List.forall_mem_cons] at h
    rw [placeValue, ih _ h.2, h.1]
    norm_num [digitValue]

/-- Digits behind a number that is already read: reading one more digit multiplies the number by ten. -/
theorem foldl_placeValue (n : Nat) (place : Int) (cs : List Char) :
    (cs.foldl (fun n c => 10 * n + digitValue c) n : Nat) * (10 : Rat) ^ (place + 1 - cs.length) =
      n * 10 ^ (place + 1) + placeValue place cs := by
  induction cs generalizing n place with
  | nil => simp [placeValue]
  | cons c cs ih =>
    have hplace : place + 1 - ((c :: cs).length : Int) = place - 1 + 1 - cs.length := by
      rw [List.length_cons]
      omega
    rw [List.foldl_cons, hplace, ih, placeValue, sub_add_cancel, zpow_add_one₀ (by norm_num)]
    push_cast
    ring

/-- Digits are worth the number that they write, times the power of ten at the last place. -/
theorem placeValue_eq (place : Int) (cs : List Char) :
    placeValue place cs = digitsValue cs * 10 ^ (place + 1 - cs.length) := by
  rw [digitsValue, foldl_placeValue, Nat.cast_zero, zero_mul, zero_add]

namespace Literal

/-- What a literal is worth: its exponent moves the places of its digits. -/
def value (l : Literal) : Rat :=
  (if l.negative then -1 else 1) * placeValue (l.whole.length - 1 + l.exponent.getD 0) (l.whole ++ l.fraction)

/-- A literal that shows an integer: digits only, or digits with an exponent that is no less than the number of digits of
the fraction up to some zeros at its end. -/
inductive Integral : Literal → Prop where
  | plain {negative : Bool} {whole : List Char} (hdigits : whole ≠ []) : Integral ⟨negative, whole, [], false, none⟩
  | scaled {negative point : Bool} {whole kept : List Char} {zeros : Nat} {e : Int}
    (hdigits : whole ≠ [] ∨ kept ++ List.replicate zeros '0' ≠ []) (hrange : Number.exponentInRange e = true)
    (hreach : kept.length ≤ e) : Integral ⟨negative, whole, kept ++ List.replicate zeros '0', point, some e⟩

variable {l : Literal}

/-- No white space stands in the text of a literal. -/
theorem Written.not_blank (h : l.Written cs) : ∀ c ∈ cs, Text.isBlank c = false := by
  obtain ⟨hsign, hmantissa, hexponent⟩ := h
  intro c hc
  rcases List.mem_append.1 hc with hc | hc
  · exact hsign.not_blank c hc
  · rcases List.mem_append.1 hc with hc | hc
    · rcases hmantissa.chars c hc with hdigit | rfl
      · exact isBlank_of_isDigit hdigit
      · decide
    · cases hexponent with
      | absent => cases hc
      | present hmark hinteger =>
        rcases List.mem_cons.1 hc with rfl | hc
        · simp only [isExponentMark, Bool.or_eq_true, beq_iff_eq] at hmark
          rcases hmark with rfl | rfl <;> decide
        · exact hinteger.not_blank c hc

/-- Without a point, the digits of a literal stand before its exponent. -/
theorem Written.present (h : l.Written cs) (hdigits : l.whole ≠ [] ∨ l.fraction ≠ []) :
    l.whole ≠ [] ∨ l.point = true := by
  obtain ⟨-, hmantissa, -⟩ := h
  cases hmantissa with
  | plain hwhole => exact hdigits.imp_right (absurd rfl)
  | pointed hwhole hfraction => exact .inr rfl

end Literal

namespace Number

open Literal

variable {l : Literal} {negative : Bool} {sign digits front : List Char} {i : Int} {n : Number}

/-- The text of a literal is read as what the literal denotes, also with white space in front of it. -/
theorem ofText?_written (hfront : ∀ c ∈ front, Text.isBlank c = true) (h : l.Written cs) :
    ofText? (String.ofList (front ++ cs)) = ofLiteral? l := by
  rw [ofText?, String.toList_ofList, Text.trim, Text.trimChars_append hfront h.not_blank, parse?_eq_some_iff.2 h,
    Option.bind_some]

/-! ## Digits only -/

theorem ofLiteral?_plain (hdigits : digits ≠ []) :
    ofLiteral? ⟨negative, digits, [], false, none⟩ =
      some (ofInt (if negative then -(digitsValue digits : Int) else digitsValue digits)) := by
  have hempty : digits.isEmpty = false := List.isEmpty_eq_false_iff.2 hdigits
  simp only [ofLiteral?, hempty]
  rfl

/-- Digits with or without a sign are read as the integer they write. -/
theorem ofText?_digits (hfront : ∀ c ∈ front, Text.isBlank c = true) (hsign : Sign negative sign)
    (hdigits : Digits digits) (hne : digits ≠ []) :
    ofText? (String.ofList (front ++ (sign ++ digits))) =
      some (ofInt (if negative then -(digitsValue digits : Int) else digitsValue digits)) := by
  have hwritten := Written.intro hsign (.plain hdigits) .absent
  rw [List.append_nil] at hwritten
  rw [ofText?_written hfront hwritten, ofLiteral?_plain hne]

theorem decimalText_of_exactInt? (h : n.exactInt? = some i) : n.decimalText = intText i := by
  cases n with
  | float d => cases h
  | _ =>
    cases h
    rfl

theorem digitsValue_zeros (zeros : Nat) (digits : List Char) :
    digitsValue (List.replicate zeros '0' ++ digits) = digitsValue digits := by
  induction zeros with
  | zero => rfl
  | succ zeros ih => exact ih

theorem digits_zeros (zeros n : Nat) : Digits (List.replicate zeros '0' ++ Nat.toDigits 10 n) := by
  intro c hc
  rcases List.mem_append.1 hc with hc | hc
  · rw [List.eq_of_mem_replicate hc]
    rfl
  · exact digits_toDigits n c hc

/-- The sign and the digits of an integer are read as the integer, also with zeros between them. -/
theorem ofText?_signed (hfront : ∀ c ∈ front, Text.isBlank c = true) (hsign : Sign (decide (i < 0)) sign) (zeros : Nat) :
    ofText? (String.ofList (front ++ (sign ++ (List.replicate zeros '0' ++ Nat.toDigits 10 i.natAbs)))) =
      some (ofInt i) := by
  have hne : List.replicate zeros '0' ++ Nat.toDigits 10 i.natAbs ≠ [] :=
    List.append_ne_nil_of_right_ne_nil _ Nat.toDigits_ne_nil
  have hvalue : (if decide (i < 0) then -(i.natAbs : Int) else i.natAbs) = i := by
    simp only [decide_eq_true_eq]
    split <;> omega
  rw [ofText?_digits hfront hsign (digits_zeros zeros _) hne, digitsValue_zeros, digitsValue_toDigits, hvalue]

/-- The decimal text of an integer is read as the integer. -/
theorem ofText?_intText (i : Int) : ofText? (intText i) = some (ofInt i) := by
  have hsign : Sign (decide (i < 0)) (if i < 0 then ['-'] else []) := by
    by_cases hneg : i < 0
    · rw [decide_eq_true hneg, if_pos hneg]
      exact .minus
    · rw [decide_eq_false hneg, if_neg hneg]
      exact .none
  have hread := ofText?_signed (List.forall_mem_nil _) hsign 0
  exact hread

/-! ## Literals with an exponent -/

theorem fraction_eq_append (l : Literal) :
    ∃ zeros, (∀ c ∈ zeros, c = '0') ∧ l.fraction = significantFraction l ++ zeros := by
  refine ⟨(l.fraction.reverse.takeWhile (· == '0')).reverse, fun c hc => ?_, ?_⟩
  · simpa using List.mem_takeWhile_imp (List.mem_reverse.1 hc)
  · rw [significantFraction, ← List.reverse_append, List.takeWhile_append_dropWhile, List.reverse_reverse]

/-- No more digits of the fraction matter than are left without some zeros at its end. -/
theorem length_significantFraction_le {kept : List Char} {zeros : Nat}
    (h : l.fraction = kept ++ List.replicate zeros '0') : (significantFraction l).length ≤ kept.length := by
  have hzeros : ∀ c ∈ List.replicate zeros '0', (c == '0') = true := fun c hc => by simp [List.eq_of_mem_replicate hc]
  have hkept : (kept.reverse.dropWhile (· == '0')).length ≤ kept.reverse.length := List.length_dropWhile_le _ _
  rw [significantFraction, h, List.reverse_append, List.reverse_replicate, List.dropWhile_append_of_pos hzeros,
    List.length_reverse]
  exact hkept.trans_eq List.length_reverse

/-- An exponent that reaches past the digits of the fraction that matter makes an integer of the literal. -/
theorem literalInt?_eq {e : Int} (he : l.exponent = some e) (hrange : exponentInRange e = true)
    (hpresent : l.whole ≠ [] ∨ l.point = true) (hreach : (significantFraction l).length ≤ e) :
    ∃ i : Int, literalInt? l = some i ∧ (i : Rat) = l.value := by
  obtain ⟨zeros, hzeros, hfraction⟩ := fraction_eq_append l
  have hvalue : l.value = (if l.negative then -1 else 1) *
      (digitsValue (l.whole ++ significantFraction l) * 10 ^ (e - (significantFraction l).length).toNat) := by
    have hplace : l.whole.length - 1 + e + 1 - (l.whole ++ significantFraction l).length =
        ((e - (significantFraction l).length).toNat : Int) := by
      rw [List.length_append]
      omega
    rw [value, he, Option.getD_some, hfraction, ← List.append_assoc, placeValue_append, placeValue_zeros _ hzeros,
      add_zero, placeValue_eq, hplace, zpow_natCast]
  have hpresent' : (l.whole.isEmpty && !l.point) = false := by simpa [or_iff_not_imp_left] using hpresent
  rw [hvalue]
  simp only [literalInt?, he, hrange, hpresent', Bool.not_true, Bool.or_self, Bool.false_eq_true, if_false]
  by_cases hempty : l.whole ++ significantFraction l = []
  · exact ⟨0, by rw [hempty]; rfl, by rw [hempty]; simp [digitsValue]⟩
  · rw [if_neg (by simpa using hempty), if_pos (by omega)]
    refine ⟨_, rfl, ?_⟩
    split <;> push_cast [Nat.pow_eq] <;> ring

/-! ## Integers as text -/

/-- The text of a literal that shows an integer is read as the integer that the literal is worth. -/
theorem ofLiteral?_integral (hwritten : l.Written cs) (h : l.Integral) :
    ∃ i : Int, ofLiteral? l = some (ofInt i) ∧ (i : Rat) = l.value := by
  cases h with
  | @plain negative whole hdigits =>
    refine ⟨_, ofLiteral?_plain hdigits, ?_⟩
    rw [value, List.append_nil, placeValue_eq]
    simp only [Option.getD_none, add_zero, sub_add_cancel, sub_self, zpow_zero, mul_one]
    split <;> push_cast <;> ring
  | @scaled negative point whole kept zeros e hdigits hrange hreach =>
    have hpresent : whole ≠ [] ∨ point = true := hwritten.present hdigits
    have hlength : (significantFraction ⟨negative, whole, kept ++ List.replicate zeros '0', point, some e⟩).length ≤ e :=
      (Int.ofNat_le.2 (length_significantFraction_le rfl)).trans hreach
    obtain ⟨i, hread, hvalue⟩ := literalInt?_eq rfl hrange hpresent hlength
    refine ⟨i, ?_, hvalue⟩
    rw [ofLiteral?, hread]
    rfl

/-- Every literal that shows an integer is read as the integer that it is worth: a sign and digits, and also a sign, digits
with a point and an exponent, if the exponent is no less than the number of digits of the fraction up to zeros at its end.
The decimal text of a number that is an integer, of any size, is read as a number equal to it. -/
theorem ofText?_exact :
    (∀ (l : Literal) (s : String), l.Written s.toList → l.Integral →
      ∃ n i, ofText? s = some n ∧ n.Holds i ∧ (i : Rat) = l.value) ∧
    ∀ (n : Number) (i : Int), n.exactInt? = some i → ∃ m, ofText? n.decimalText = some m ∧ m.cmp n = .eq := by
  constructor
  · intro l s hwritten hintegral
    obtain ⟨i, hread, hvalue⟩ := ofLiteral?_integral hwritten hintegral
    have htext := ofText?_written (List.forall_mem_nil _) hwritten
    rw [List.nil_append, String.ofList_toList, hread] at htext
    exact ⟨ofInt i, i, htext, holds_ofInt i, hvalue⟩
  · intro n i hn
    rw [decimalText_of_exactInt? hn]
    exact ⟨ofInt i, ofText?_intText i, cmp_eq_iff.2 ((exact_ofInt i).trans (exact_of_exactInt? hn).symm)⟩

/-- Two of the digits of this fraction are zeros that the exponent need not reach past. -/
theorem ofText?_exact_hundreds :
    Written ⟨true, ['1', '2'], ['3', '4', '0', '0'], true, some 2⟩ "-12.3400e+2".toList ∧
      Integral ⟨true, ['1', '2'], ['3', '4', '0', '0'], true, some 2⟩ ∧
      (∃ n, ofText? "-12.3400e+2" = some n ∧ n.Holds (-1234)) ∧
      (big (2 ^ 70)).exactInt? = some (2 ^ 70) ∧
      ∃ m, ofText? (big (2 ^ 70)).decimalText = some m ∧ m.cmp (big (2 ^ 70)) = .eq := by
  have hwritten : Written ⟨true, ['1', '2'], ['3', '4', '0', '0'], true, some 2⟩ "-12.3400e+2".toList :=
    parse?_eq_some_iff.1 (by decide)
  have hintegral : Integral ⟨true, ['1', '2'], ['3', '4', '0', '0'], true, some 2⟩ :=
    @Integral.scaled true true ['1', '2'] ['3', '4'] 2 2 (.inl (by decide)) (by decide) (by decide)
  obtain ⟨n, i, hread, hholds, hvalue⟩ := ofText?_exact.1 _ _ hwritten hintegral
  have hi : (i : Rat) = (-1234 : Int) := by
    have hvalues : ['0', '1', '2', '3', '4'].map digitValue = [0, 1, 2, 3, 4] := by decide
    simp only [List.map_cons, List.map_nil, List.cons.injEq, and_true] at hvalues
    rw [hvalue]
    norm_num [value, placeValue, hvalues]
  obtain rfl := Rat.intCast_inj.1 hi
  exact ⟨hwritten, hintegral, ⟨n, hread, hholds⟩, rfl, ofText?_exact.2 _ _ rfl⟩

end Number
end PolicyEngine
