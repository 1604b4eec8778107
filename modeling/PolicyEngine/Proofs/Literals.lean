import Mathlib.Data.List.TakeWhile
import PolicyEngine.Number.Text

/-!
The texts that are read as numbers. A literal is read from a text if and only if the text is its sign, its digits with
its point, and its exponent, one after another. A number is read from a text if and only if the text without the white
space around it is a decimal literal with a digit before its exponent, or a point without digits before an exponent
that is small enough to be read exactly.
-/
namespace PolicyEngine

variable {cs whole fraction : List Char} {negative point : Bool} {i : Int} {l : Literal}

/-! ## Signs and digits -/

def Digits (cs : List Char) : Prop := ∀ c ∈ cs, isDigit c = true

theorem digits_nil : Digits [] := by
  rintro c ⟨⟩

theorem digits_toDigits (n : Nat) : Digits (Nat.toDigits 10 n) := by
  intro c hc
  have hdigit := Nat.isDigit_of_mem_toDigits (by decide) (by decide) hc
  simpa [isDigit, Char.isDigit, Char.le_def, UInt32.le_iff_toNat_le] using hdigit

theorem digitsValue_toDigits (n : Nat) : digitsValue (Nat.toDigits 10 n) = n :=
  calc digitsValue (Nat.toDigits 10 n) = Nat.ofDigitChars 10 (Nat.toDigits 10 n) 0 := Nat.ofDigitChars_eq_foldl.symm
    _ = n := Nat.ofDigitChars_ten_toDigits

/-- A sign, or none for a positive number. -/
inductive Sign : Bool → List Char → Prop where
  | none : Sign false []
  | plus : Sign false ['+']
  | minus : Sign true ['-']

/-- A text that starts with no sign. -/
def Unsigned (cs : List Char) : Prop := ∀ c ∈ cs.head?, c ≠ '-' ∧ c ≠ '+'

theorem isDigit_ne {c d : Char} (hc : isDigit c = true) (hd : isDigit d = false) : c ≠ d := by
  rintro rfl
  rw [hc] at hd
  cases hd

theorem unsigned_of_digits (h : Digits cs) : Unsigned cs := fun c hc =>
  have hdigit := h c (List.mem_of_mem_head? hc)
  ⟨isDigit_ne hdigit rfl, isDigit_ne hdigit rfl⟩

theorem sign_takeSign (cs : List Char) : ∃ sign, cs = sign ++ (takeSign cs).2 ∧ Sign (takeSign cs).1 sign := by
  unfold takeSign
  split
  · exact ⟨['-'], rfl, .minus⟩
  · exact ⟨['+'], rfl, .plus⟩
  · exact ⟨[], rfl, .none⟩

theorem takeSign_append {sign : List Char} (hsign : Sign negative sign) (h : Unsigned cs) :
    takeSign (sign ++ cs) = (negative, cs) := by
  cases hsign with
  | plus => rfl
  | minus => rfl
  | none =>
    unfold takeSign
    rw [List.nil_append]
    split
    · exact absurd rfl (h _ rfl).1
    · exact absurd rfl (h _ rfl).2
    · rfl

/-- The text of an integer: a sign and digits. -/
def IntegerText (i : Int) (cs : List Char) : Prop :=
  ∃ negative sign digits, Sign negative sign ∧ digits ≠ [] ∧ Digits digits ∧ cs = sign ++ digits ∧
    i = if negative then -(digitsValue digits : Int) else digitsValue digits

theorem parseInteger?_eq_some_iff : parseInteger? cs = some i ↔ IntegerText i cs := by
  constructor
  · intro h
    obtain ⟨sign, htext, hsign⟩ := sign_takeSign cs
    simp only [parseInteger?, Option.ite_none_left_eq_some, Bool.or_eq_true, List.isEmpty_iff, Bool.not_eq_true',
      not_or, Bool.not_eq_false, List.all_eq_true, Option.some.injEq] at h
    exact ⟨_, sign, _, hsign, h.1.1, h.1.2, htext, h.2.symm⟩
  · rintro ⟨negative, sign, digits, hsign, hne, hdigits, rfl, rfl⟩
    have hempty : digits.isEmpty = false := List.isEmpty_eq_false_iff.2 hne
    have hall : digits.all isDigit = true := List.all_eq_true.2 hdigits
    simp only [parseInteger?, takeSign_append hsign (unsigned_of_digits hdigits), hempty, hall]
    rfl

/-- A text is cut after its longest start in a class if and only if the class holds up to there and no further. -/
theorem takeWhile_dropWhile_iff {p : Char → Bool} {front back : List Char} :
    cs.takeWhile p = front ∧ cs.dropWhile p = back ↔
      cs = front ++ back ∧ (∀ c ∈ front, p c = true) ∧ ∀ c ∈ back.head?, p c = false := by
  constructor
  · rintro ⟨rfl, rfl⟩
    refine ⟨List.takeWhile_append_dropWhile.symm, fun c hc => List.mem_takeWhile_imp hc, fun c hc => ?_⟩
    have hnot := List.head?_dropWhile_not p cs
    rw [Option.mem_def.1 hc] at hnot
    simpa using hnot
  · rintro ⟨rfl, hfront, hback⟩
    rw [List.takeWhile_append_of_pos hfront, List.dropWhile_append_of_pos hfront]
    cases back with
    | nil => exact ⟨List.append_nil _, rfl⟩
    | cons c back =>
      rw [List.takeWhile_cons, List.dropWhile_cons, hback c rfl]
      exact ⟨List.append_nil _, rfl⟩

namespace Literal

/-! ## Literals and their texts -/

/-- The text of the digits of a literal; none stand after a point that is not written. -/
inductive Mantissa : List Char → List Char → Bool → List Char → Prop where
  | plain {whole : List Char} (hwhole : Digits whole) : Mantissa whole [] false whole
  | pointed {whole fraction : List Char} (hwhole : Digits whole) (hfraction : Digits fraction) :
    Mantissa whole fraction true (whole ++ '.' :: fraction)

/-- Nothing, or a mark and an integer. -/
inductive ExponentText : Option Int → List Char → Prop where
  | absent : ExponentText none []
  | present {mark : Char} {i : Int} {text : List Char} (hmark : isExponentMark mark = true) (h : IntegerText i text) :
    ExponentText (some i) (mark :: text)

/-- A text is that of a literal: its sign, its digits with its point, and its exponent. -/
inductive Written : Literal → List Char → Prop where
  | intro {negative : Bool} {whole fraction : List Char} {point : Bool} {e : Option Int}
    {sign mantissa exponent : List Char} (hsign : Sign negative sign) (hmantissa : Mantissa whole fraction point mantissa)
    (hexponent : ExponentText e exponent) :
    Written ⟨negative, whole, fraction, point, e⟩ (sign ++ (mantissa ++ exponent))

theorem splitPoint?_eq_some_iff : splitPoint? cs = some (whole, fraction, point) ↔ Mantissa whole fraction point cs := by
  constructor
  · intro h
    unfold splitPoint? at h
    split at h
    · next hback =>
      cases h
      obtain ⟨hcs, hwhole, -⟩ := takeWhile_dropWhile_iff.1 ⟨rfl, hback⟩
      rw [List.append_nil] at hcs
      exact hcs ▸ .plain (hcs ▸ hwhole)
    · next c back hback =>
      obtain ⟨hpoint, h⟩ := Option.ite_none_right_eq_some.1 h
      cases h
      simp only [Bool.and_eq_true, beq_iff_eq, List.all_eq_true] at hpoint
      obtain ⟨rfl, hfraction⟩ := hpoint
      obtain ⟨hcs, hwhole, -⟩ := takeWhile_dropWhile_iff.1 ⟨rfl, hback⟩
      have hmantissa := Mantissa.pointed hwhole hfraction
      rwa [← hcs] at hmantissa
  · intro h
    cases h with
    | plain hwhole =>
      obtain ⟨htake, hdrop⟩ := takeWhile_dropWhile_iff.2
        ⟨(List.append_nil cs).symm, hwhole, by rintro c ⟨⟩⟩
      simp only [splitPoint?, htake, hdrop]
    | pointed hwhole hfraction =>
      obtain ⟨htake, hdrop⟩ := takeWhile_dropWhile_iff.2
        ⟨rfl, hwhole, show ∀ c ∈ ('.' :: fraction).head?, isDigit c = false by rintro c ⟨⟩; rfl⟩
      simp only [splitPoint?, htake, hdrop, List.all_eq_true.2 hfraction]
      rfl

variable {mantissa exponent : List Char} {e : Option Int}

/-- Neither digits nor points are marks of an exponent, nor signs. -/
theorem Mantissa.chars (h : Mantissa whole fraction point mantissa) :
    ∀ c ∈ mantissa, isDigit c = true ∨ c = '.' := by
  cases h with
  | plain hwhole => exact fun c hc => .inl (hwhole c hc)
  | pointed hwhole hfraction =>
    intro c hc
    rcases List.mem_append.1 hc with hc | hc
    · exact .inl (hwhole c hc)
    · rcases List.mem_cons.1 hc with rfl | hc
      · exact .inr rfl
      · exact .inl (hfraction c hc)

theorem isExponentMark_of_isDigit {c : Char} (h : isDigit c = true) : isExponentMark c = false := by
  simp only [isExponentMark, Bool.or_eq_false_iff, beq_eq_false_iff_ne]
  exact ⟨isDigit_ne h rfl, isDigit_ne h rfl⟩

theorem Mantissa.unmarked (h : Mantissa whole fraction point mantissa) :
    ∀ c ∈ mantissa, (!isExponentMark c) = true := by
  intro c hc
  rw [Bool.not_eq_true']
  rcases h.chars c hc with hdigit | rfl
  · exact isExponentMark_of_isDigit hdigit
  · rfl

theorem ExponentText.marked (h : ExponentText e exponent) : ∀ c ∈ exponent.head?, (!isExponentMark c) = false := by
  cases h with
  | absent => rintro c ⟨⟩
  | present hmark =>
    rintro c ⟨⟩
    rw [hmark]
    rfl

/-- The digits and the exponent of a literal start with no sign. -/
theorem Mantissa.unsigned (h : Mantissa whole fraction point mantissa) (he : ExponentText e exponent) :
    Unsigned (mantissa ++ exponent) := by
  cases mantissa with
  | cons c mantissa =>
    rintro d ⟨⟩
    rcases h.chars c List.mem_cons_self with hdigit | rfl
    · exact ⟨isDigit_ne hdigit rfl, isDigit_ne hdigit rfl⟩
    · decide
  | nil =>
    intro c hc
    have hmark : isExponentMark c = true := by simpa using he.marked c hc
    constructor <;> rintro rfl <;> cases hmark

theorem parse?_eq_some_iff : parse? cs = some l ↔ l.Written cs := by
  constructor
  · intro h
    obtain ⟨sign, hcs, hsign⟩ := sign_takeSign cs
    rw [hcs]
    simp only [parse?] at h
    split at h
    · next whole fraction point hsplit hrest =>
      cases h
      obtain ⟨htext, -, -⟩ := takeWhile_dropWhile_iff.1 ⟨rfl, hrest⟩
      rw [htext]
      exact ⟨hsign, splitPoint?_eq_some_iff.1 hsplit, .absent⟩
    · next whole fraction point mark exponent hsplit hrest =>
      obtain ⟨e, he, rfl⟩ := Option.map_eq_some_iff.1 h
      obtain ⟨htext, -, hmark⟩ := takeWhile_dropWhile_iff.1 ⟨rfl, hrest⟩
      rw [htext]
      exact ⟨hsign, splitPoint?_eq_some_iff.1 hsplit,
        .present (by simpa using hmark mark rfl) (parseInteger?_eq_some_iff.1 he)⟩
    · cases h
  · rintro ⟨hsign, hmantissa, hexponent⟩
    obtain ⟨htake, hdrop⟩ := takeWhile_dropWhile_iff.2 ⟨rfl, hmantissa.unmarked, hexponent.marked⟩
    simp only [parse?, takeSign_append hsign (hmantissa.unsigned hexponent), htake, hdrop,
      splitPoint?_eq_some_iff.2 hmantissa]
    cases hexponent with
    | absent => rfl
    | present hmark h => simp only [parseInteger?_eq_some_iff.2 h, Option.map_some]

end Literal

namespace Number

open Literal

/-! ## The texts of numbers -/

/-- A sign, digits with at most one point among them and at least one digit, and an exponent. -/
inductive DecimalText : List Char → Prop where
  | intro {negative point : Bool} {whole fraction sign mantissa exponent : List Char} {e : Option Int}
    (hsign : Sign negative sign) (hmantissa : Mantissa whole fraction point mantissa)
    (hdigits : whole ≠ [] ∨ fraction ≠ []) (hexponent : ExponentText e exponent) :
    DecimalText (sign ++ (mantissa ++ exponent))

/-- A point without digits, and an exponent that is small enough to be read exactly. -/
inductive LonePoint : List Char → Prop where
  | intro {negative : Bool} {sign exponent : List Char} {e : Int} (hsign : Sign negative sign)
    (hexponent : ExponentText (some e) exponent) (hrange : exponentInRange e = true) :
    LonePoint (sign ++ '.' :: exponent)

theorem ofLiteral?_isSome_of_hasDigits {e : Option Int} {mantissa : List Char}
    (hmantissa : Mantissa whole fraction point mantissa) (hdigits : whole ≠ [] ∨ fraction ≠ []) :
    (ofLiteral? ⟨negative, whole, fraction, point, e⟩).isSome = true := by
  have hdigits' : hasDigits ⟨negative, whole, fraction, point, e⟩ = true := by
    simpa [hasDigits, or_iff_not_imp_left] using hdigits
  simp only [ofLiteral?, hdigits', if_pos]
  split
  · next hplain =>
    cases hmantissa with
    | pointed => simp at hplain
    | plain =>
      have hwhole : whole.isEmpty = false := by simpa using hdigits
      rw [hwhole]
      rfl
  · split <;> rfl

/-- Without digits nothing but a point before an exponent is read, and it is read as zero. -/
theorem ofLiteral?_of_no_digits (negative point : Bool) (e : Option Int) :
    ofLiteral? ⟨negative, [], [], point, e⟩ =
      if point = true ∧ e.any exponentInRange = true then some 0 else none := by
  cases e with
  | none => cases point <;> rfl
  | some e =>
    cases point with
    | false => simp [ofLiteral?, literalInt?, hasDigits]
    | true =>
      cases hrange : exponentInRange e with
      | true => simp [ofLiteral?, literalInt?, significantFraction, hrange]; rfl
      | false => simp [ofLiteral?, literalInt?, hasDigits, hrange]

theorem LonePoint.read (h : LonePoint cs) : (parse? cs).bind ofLiteral? = some 0 := by
  obtain ⟨hsign, hexponent, hrange⟩ := h
  have hwritten := Written.intro hsign (.pointed digits_nil digits_nil) hexponent
  rw [List.nil_append, List.singleton_append] at hwritten
  rw [parse?_eq_some_iff.2 hwritten, Option.bind_some, ofLiteral?_of_no_digits]
  exact if_pos ⟨rfl, hrange⟩

theorem DecimalText.read (h : DecimalText cs) : ((parse? cs).bind ofLiteral?).isSome = true := by
  obtain ⟨hsign, hmantissa, hdigits, hexponent⟩ := h
  rw [parse?_eq_some_iff.2 (.intro hsign hmantissa hexponent), Option.bind_some]
  exact ofLiteral?_isSome_of_hasDigits hmantissa hdigits

/-- A literal that is read as a number has a digit, or else its point stands alone. -/
theorem decimalText_or_lonePoint (h : l.Written cs) (hread : (ofLiteral? l).isSome = true) :
    DecimalText cs ∨ LonePoint cs := by
  obtain @⟨negative, whole, fraction, point, e, sign, mantissa, exponent, hsign, hmantissa, hexponent⟩ := h
  by_cases hdigits : whole ≠ [] ∨ fraction ≠ []
  · exact .inl ⟨hsign, hmantissa, hdigits, hexponent⟩
  · obtain ⟨rfl, rfl⟩ : whole = [] ∧ fraction = [] := by simpa using hdigits
    rw [ofLiteral?_of_no_digits, Option.isSome_ite] at hread
    obtain ⟨rfl, hrange⟩ := hread
    obtain ⟨e, rfl, hrange⟩ := (Option.any_eq_true _ _).1 hrange
    cases hmantissa with
    | pointed => exact .inr ⟨hsign, hexponent, hrange⟩

/-- A number is read from a text if and only if, but for the white space around it, the text is that of a decimal
literal, or of a lone point with an exponent. -/
theorem ofText?_isSome_iff (s : String) :
    (ofText? s).isSome = true ↔ DecimalText (Text.trim s.toList) ∨ LonePoint (Text.trim s.toList) := by
  constructor
  · intro h
    obtain ⟨n, hn⟩ := Option.isSome_iff_exists.1 h
    obtain ⟨l, hparse, hread⟩ := Option.bind_eq_some_iff.1 hn
    exact decimalText_or_lonePoint (parse?_eq_some_iff.1 hparse) (Option.isSome_iff_exists.2 ⟨n, hread⟩)
  · rintro (h | h)
    · exact h.read
    · exact Option.isSome_iff_exists.2 ⟨0, h.read⟩

/-- A lone point counts as no digits, and yet it is read as zero. -/
theorem ofText?_eq_zero_of_lonePoint {s : String} (h : LonePoint (Text.trim s.toList)) : ofText? s = some 0 := h.read

example : ofText? ".e5" = some 0 := by decide

end Number
end PolicyEngine
