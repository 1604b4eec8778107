import Mathlib.Data.List.Forall2
import PolicyEngine.Proofs.Collections
import PolicyEngine.Proofs.Integers
import PolicyEngine.Proofs.Literals

/-!
Documents that survive their JSON text. The characters of a string and the digits of an integer are read back as they
were written, a value is read back if its parts are, and so is every document of null, booleans, strings, integers in
machine words, arrays and objects with text for keys, as deep as a text may be nested. Left out are the integers beyond
a machine word, which are written as floating-point words, and the one object that stands for a number.
-/
namespace PolicyEngine

namespace Number

/-! ## Integers -/

theorem numberFinite_ofInt (i : Int) : Json.numberFinite (ofInt i) = true := by
  rw [ofInt]
  split
  · rfl
  · split <;> rfl

theorem ofJsonNumber_ofInt (i : Int) : Term.ofJsonNumber (ofInt i) = .number (ofInt i) := by
  rw [ofInt]
  split
  · rfl
  · split <;> rfl

end Number

namespace Json

/-! ## Digits -/

/-- Only zero is written with a zero in front. -/
theorem head?_toDigits {n : Nat} (hn : n ≠ 0) : (Nat.toDigits 10 n).head? ≠ some '0' := by
  induction n using Nat.strong_induction_on with
  | _ n ih =>
    rw [Nat.toDigits_eq_if (by decide)]
    split
    · next hlt =>
      have hall : ∀ d < 10, d ≠ 0 → [Nat.digitChar d].head? ≠ some '0' := by decide
      exact hall n hlt hn
    · rw [List.head?_append_of_ne_nil _ Nat.toDigits_ne_nil]
      exact ih (n / 10) (by omega) (by omega)

/-- What follows a number neither continues its digits nor starts a fraction or an exponent. -/
def Ends (rest : List Char) : Prop := ∀ c ∈ rest.head?, isDigit c = false ∧ c ≠ '.' ∧ isExponentMark c = false

theorem Ends.nil : Ends [] := by
  rintro c ⟨⟩

theorem ends_comma (rest : List Char) : Ends (',' :: rest) := by
  rintro c ⟨⟩
  decide

theorem ends_bracket (rest : List Char) : Ends (']' :: rest) := by
  rintro c ⟨⟩
  decide

theorem ends_brace (rest : List Char) : Ends ('\x7d' :: rest) := by
  rintro c ⟨⟩
  decide

section Numbers

variable {rest : List Char}

theorem readDigits_toDigits (h : Ends rest) (n : Nat) :
    readDigits (Nat.toDigits 10 n ++ rest) = some (Nat.toDigits 10 n, rest) := by
  obtain ⟨htake, hdrop⟩ := takeWhile_dropWhile_iff.2 ⟨rfl, digits_toDigits n, fun c hc => (h c hc).1⟩
  rw [readDigits, htake, hdrop]
  split
  · next hnil => exact absurd hnil Nat.toDigits_ne_nil
  · rfl

theorem readWhole_toDigits (h : Ends rest) (n : Nat) :
    readWhole (Nat.toDigits 10 n ++ rest) = some (Nat.toDigits 10 n, rest) := by
  rw [readWhole, readDigits_toDigits h]
  split
  · next hzero =>
    cases n with
    | zero => cases hzero
    | succ n =>
      have hhead := head?_toDigits n.succ_ne_zero
      simp_all
  · rfl

theorem Ends.readFraction (h : Ends rest) : readFraction rest = some (none, rest) := by
  rw [Json.readFraction]
  rintro cs rfl
  exact (h '.' rfl).2.1 rfl

theorem Ends.readExponent (h : Ends rest) : readExponent rest = some (none, rest) := by
  cases rest with
  | nil => rfl
  | cons c rest => rw [Json.readExponent, (h c rfl).2.2, if_neg Bool.false_ne_true]

theorem numberOfLiteral_neg {i : Int} (hi : Number.FitsWord i) (hneg : i < 0) :
    numberOfLiteral ⟨true, Nat.toDigits 10 i.natAbs, [], false, none⟩ = .ofInt i := by
  have hsize : -(i.natAbs : Int) = i := by omega
  have hunsigned : Number.fitsUnsigned i = false := by simp [Number.fitsUnsigned, hneg]
  have hsigned : Number.fitsSigned i = true := by
    simp only [Number.fitsSigned, Bool.and_eq_true, decide_eq_true_iff]
    exact ⟨hi.1, by omega⟩
  simp only [numberOfLiteral, Number.ofInt, digitsValue_toDigits, hsize, hunsigned, hsigned]
  simp [hneg.ne]

theorem numberOfLiteral_nonneg {i : Int} (hi : Number.FitsWord i) (hpos : 0 ≤ i) :
    numberOfLiteral ⟨false, Nat.toDigits 10 i.natAbs, [], false, none⟩ = .ofInt i := by
  have hsize : (i.natAbs : Int) = i := by omega
  have hunsigned : Number.fitsUnsigned i = true := by simp [Number.fitsUnsigned, hpos, hi.2]
  have hnat : i.natAbs = i.toNat := by omega
  simp only [numberOfLiteral, Number.ofInt, digitsValue_toDigits, hsize, hunsigned]
  simp [hnat]

theorem readNumber_negative (h : Ends rest) {cs digits : List Char} (hwhole : readWhole cs = some (digits, rest)) :
    readNumber ('-' :: cs) = some (numberOfLiteral ⟨true, digits, [], false, none⟩, rest) := by
  unfold readNumber
  simp only [hwhole, h.readFraction]
  simp only [h.readExponent, Option.getD_none, Option.isSome_none]

theorem readNumber_nonnegative (h : Ends rest) {cs digits : List Char} (hwhole : readWhole cs = some (digits, rest))
    (hsign : ∀ cs', cs ≠ '-' :: cs') :
    readNumber cs = some (numberOfLiteral ⟨false, digits, [], false, none⟩, rest) := by
  unfold readNumber
  simp only [hwhole, h.readFraction]
  simp only [h.readExponent, Option.getD_none, Option.isSome_none]

/-- The first of some digits. -/
theorem toDigits_append (n : Nat) (rest : List Char) :
    ∃ c cs, Nat.toDigits 10 n ++ rest = c :: cs ∧ isDigit c = true := by
  obtain ⟨c, cs, hcs⟩ := List.exists_cons_of_ne_nil (Nat.toDigits_ne_nil (n := n) (b := 10))
  exact ⟨c, cs ++ rest, by rw [hcs]; rfl, digits_toDigits n c (by rw [hcs]; exact List.mem_cons_self)⟩

/-- An integer that fits in a machine word is read as it was written. -/
theorem readNumber_intText (h : Ends rest) {i : Int} (hi : Number.FitsWord i) :
    readNumber ((Number.intText i).toList ++ rest) = some (Number.ofInt i, rest) := by
  have hwhole := readWhole_toDigits h i.natAbs
  by_cases hneg : i < 0
  · have htext : (Number.intText i).toList ++ rest = '-' :: (Nat.toDigits 10 i.natAbs ++ rest) := by
      simp [Number.intText, hneg]
    rw [htext, readNumber_negative h hwhole, numberOfLiteral_neg hi hneg]
  · have htext : (Number.intText i).toList ++ rest = Nat.toDigits 10 i.natAbs ++ rest := by
      simp [Number.intText, hneg]
    rw [htext, readNumber_nonnegative h hwhole, numberOfLiteral_nonneg hi (by omega)]
    obtain ⟨c, cs, hcs, hc⟩ := toDigits_append i.natAbs rest
    rintro cs' heq
    rw [heq] at hcs
    cases hcs
    cases hc

end Numbers

/-! ## Strings -/

theorem hexUnit?_hexChar {n : Nat} (hn : n < 0x20) :
    hexUnit? '0' '0' (hexChar (n / 16)) (hexChar (n % 16)) = some n := by
  have hall : ∀ n < 0x20, hexUnit? '0' '0' (hexChar (n / 16)) (hexChar (n % 16)) = some n := by decide
  exact hall n hn

/-- A control character is read from its code. -/
theorem readString_code {c : Char} (hc : c.toNat < 0x20) (rest : List Char) :
    readString ('\\' :: 'u' :: '0' :: '0' :: hexChar (c.toNat / 16) :: hexChar (c.toNat % 16) :: rest) =
      (readString rest).map (consChar c) := by
  have hlow : isLowSurrogate c.toNat = false := by simp [isLowSurrogate]; omega
  have hhigh : isHighSurrogate c.toNat = false := by simp [isHighSurrogate]; omega
  rw [readString]
  simp only [hexUnit?_hexChar hc, hlow, hhigh, Bool.false_eq_true, if_false, Char.ofNat_toNat]

theorem readString_escapeChar (c : Char) (rest : List Char) :
    readString (escapeChar c ++ rest) = (readString rest).map (consChar c) := by
  unfold escapeChar
  split
  case h_8 hquote hslash _ _ _ _ _ =>
    split
    · next hcontrol => exact readString_code hcontrol rest
    · next hplain =>
      show readString (c :: rest) = _
      rw [readString]
      · simp only [hplain, beq_iff_eq, decide_false, Bool.false_or, ite_eq_right_iff]
        exact fun h => absurd h hslash
      · exact hquote
      · exact fun _ _ _ _ _ h _ => hslash h
      · exact fun _ _ h _ => hslash h
  all_goals simp [readString, simpleEscape?]

theorem readString_escaped (cs rest : List Char) :
    readString (cs.flatMap escapeChar ++ '"' :: rest) = some (cs, rest) := by
  induction cs with
  | nil => rfl
  | cons c cs ih =>
    rw [List.flatMap_cons, List.append_assoc, readString_escapeChar, ih]
    rfl

theorem toList_quote (s : String) : (quote s).toList = '"' :: (s.toList.flatMap escapeChar ++ ['"']) := by
  rw [quote, String.toList_ofList]
  rfl

/-- Text is read as it was written in quotes. -/
theorem readString_quote (s : String) (rest : List Char) :
    ∃ cs, (quote s).toList ++ rest = '"' :: cs ∧ readString cs = some (s.toList, rest) := by
  refine ⟨s.toList.flatMap escapeChar ++ '"' :: rest, ?_, readString_escaped _ _⟩
  rw [toList_quote]
  simp

/-! ## Values -/

/-- The one value is written in a text that is read as the other, whatever follows it. -/
structure Reads (v w : Json) : Prop where
  starts : ∃ c cs, v.compact.toList = c :: cs ∧ isSpace c = false ∧ c ≠ ']'
  reads : ∀ {rest : List Char} {fuel : Nat}, Ends rest → 2 * v.compact.toList.length ≤ fuel →
    readValue fuel (v.compact.toList ++ rest) = some (w, rest)

theorem skipSpace_cons {c : Char} (hc : isSpace c = false) (cs : List Char) : skipSpace (c :: cs) = c :: cs := by
  rw [skipSpace, List.dropWhile_cons, hc, if_neg Bool.false_ne_true]

theorem reads_null : Reads .null .null where
  starts := ⟨'n', ['u', 'l', 'l'], by decide⟩
  reads := by
    intro rest fuel _ hfuel
    cases fuel with
    | zero => cases hfuel
    | succ fuel => rfl

theorem reads_bool (b : Bool) : Reads (.bool b) (.bool b) where
  starts := by
    cases b
    · exact ⟨'f', ['a', 'l', 's', 'e'], by decide⟩
    · exact ⟨'t', ['r', 'u', 'e'], by decide⟩
  reads := by
    intro rest fuel _ hfuel
    cases fuel with
    | zero => cases b <;> cases hfuel
    | succ fuel => cases b <;> rfl

theorem reads_string (s : String) : Reads (.string s) (.string s) where
  starts := by
    rw [compact, toList_quote]
    exact ⟨'"', _, rfl, by decide⟩
  reads := by
    intro rest fuel _ hfuel
    obtain ⟨cs, htext, hread⟩ := readString_quote s rest
    rw [compact, toList_quote] at hfuel
    cases fuel with
    | zero => cases hfuel
    | succ fuel =>
      rw [compact, htext, readValue, skipSpace_cons (by decide)]
      simp only [hread, Option.map_some, String.ofList_toList]

/-- A character that an integer may start with. -/
def Leads (c : Char) : Prop := c = '-' ∨ isDigit c = true

instance (c : Char) : Decidable (Leads c) := inferInstanceAs (Decidable (_ ∨ _))

theorem Leads.ne {c d : Char} (hc : Leads c) (hd : ¬ Leads d) : c ≠ d := fun h => hd (h ▸ hc)

theorem Leads.isSpace {c : Char} (hc : Leads c) : isSpace c = false := by
  have hspace : ∀ d ∈ [' ', '\n', '\t', '\r'], ¬ Leads d := by simp [Leads, isDigit]
  simp only [Json.isSpace, Bool.or_eq_false_iff, beq_eq_false_iff_ne]
  exact ⟨⟨⟨hc.ne (hspace _ (by simp)), hc.ne (hspace _ (by simp))⟩, hc.ne (hspace _ (by simp))⟩,
    hc.ne (hspace _ (by simp))⟩

theorem intText_leads (i : Int) : ∃ c cs, (Number.intText i).toList = c :: cs ∧ Leads c := by
  by_cases hneg : i < 0
  · exact ⟨'-', Nat.toDigits 10 i.natAbs, by simp [Number.intText, hneg], .inl rfl⟩
  · obtain ⟨c, cs, hcs, hc⟩ := toDigits_append i.natAbs []
    rw [List.append_nil] at hcs
    exact ⟨c, cs, by simp [Number.intText, hneg, hcs], .inr hc⟩

/-- A text that starts like an integer is read as a number. -/
theorem Leads.readValue {c : Char} (hc : Leads c) (fuel : Nat) (cs : List Char) :
    readValue (fuel + 1) (c :: cs) = (readNumber (c :: cs)).map fun (n, rest) => (.number n, rest) := by
  have hmark : ∀ d ∈ ['"', '[', '\x7b', 'n', 't', 'f'], ¬ Leads d := by simp [Leads, isDigit]
  rw [Json.readValue, skipSpace_cons hc.isSpace]
  split
  case h_7 => rfl
  all_goals
    next heq =>
      obtain ⟨rfl, rfl⟩ := List.cons.inj heq
      exact absurd hc (hmark _ (by simp))

theorem reads_number {n : Number} {i : Int} (hn : numberText n = Number.intText i) (hi : Number.FitsWord i) :
    Reads (.number n) (.number (.ofInt i)) where
  starts := by
    obtain ⟨c, cs, hcs, hc⟩ := intText_leads i
    rw [compact, hn]
    exact ⟨c, cs, hcs, hc.isSpace, hc.ne (by decide)⟩
  reads := by
    intro rest fuel hends hfuel
    obtain ⟨c, cs, hcs, hc⟩ := intText_leads i
    rw [compact, hn] at *
    cases fuel with
    | zero => rw [hcs] at hfuel; cases hfuel
    | succ fuel =>
      have hread := readNumber_intText hends hi
      rw [hcs, List.cons_append] at *
      rw [hc.readValue, hread]
      rfl

/-! ## Arrays and objects -/

theorem compactItems_eq_map (items : List Json) : compactItems items = items.map compact := by
  induction items with
  | nil => rfl
  | cons v rest ih => rw [compactItems, ih, List.map_cons]

/-- A field as it is written. -/
def fieldText (field : String × Json) : String := quote field.1 ++ ":" ++ field.2.compact

theorem compactFields_eq_map (fields : List (String × Json)) : compactFields fields = fields.map fieldText := by
  induction fields with
  | nil => rfl
  | cons field rest ih => rw [compactFields, ih, List.map_cons, fieldText]

/-- Texts with a comma after each but the last. -/
def joined (texts : List String) : List Char := [','].intercalate (texts.map String.toList)

theorem joined_singleton (text : String) : joined [text] = text.toList := List.intercalate_singleton

theorem joined_cons_cons (text next : String) (texts : List String) :
    joined (text :: next :: texts) = text.toList ++ ',' :: joined (next :: texts) := by
  rw [joined, List.map_cons, List.map_cons, List.intercalate_cons_cons, List.append_assoc]
  rfl

theorem toList_compact_array (items : List Json) :
    (compact (.array items)).toList = '[' :: (joined (items.map compact) ++ [']']) := by
  rw [compact, compactItems_eq_map, joined]
  simp [String.toList_intercalate]

theorem toList_compact_object (fields : List (String × Json)) :
    (compact (.object fields)).toList = '\x7b' :: (joined (fields.map fieldText) ++ ['\x7d']) := by
  rw [compact, compactFields_eq_map, joined]
  simp [String.toList_intercalate]

theorem readItems_joined {vs ws : List Json} (h : List.Forall₂ Reads vs ws) (hne : vs ≠ []) (rest : List Char)
    {fuel : Nat} (hfuel : 2 * (joined (vs.map compact)).length + 1 ≤ fuel) :
    readItems fuel (joined (vs.map compact) ++ ']' :: rest) = some (ws, rest) := by
  induction h generalizing fuel with
  | nil => exact absurd rfl hne
  | @cons v w vs ws hv hvs ih =>
    cases fuel with
    | zero => cases hfuel
    | succ fuel =>
      cases hvs with
      | nil =>
        rw [List.map_singleton, joined_singleton] at *
        rw [readItems, hv.reads (ends_bracket rest) (by omega)]
        rfl
      | @cons v' w' vs ws hv' hvs =>
        simp only [List.map_cons, joined_cons_cons, List.length_append, List.length_cons] at *
        have hrest : readItems fuel _ = some (w' :: ws, rest) := ih (by simp) (by omega)
        rw [List.append_assoc, List.cons_append, readItems, hv.reads (ends_comma _) (by omega)]
        simp only [skipSpace_cons (c := ',') (by decide), hrest]
        rfl

/-- The one field is written in a text that is read as the other. -/
def FieldReads (f g : String × Json) : Prop := f.1 = g.1 ∧ f.2.Reads g.2

theorem length_fieldText (f : String × Json) : f.2.compact.toList.length + 3 ≤ (fieldText f).toList.length := by
  simp only [fieldText, String.toList_append, toList_quote, List.length_append, List.length_cons]
  have hcolon : ":".toList.length = 1 := rfl
  omega

/-- A field is read before anything that may follow it. -/
theorem readFields_fieldText {f g : String × Json} (h : FieldReads f g) {rest : List Char} (hends : Ends rest)
    {fuel : Nat} (hfuel : 2 * (fieldText f).toList.length ≤ fuel + 1) :
    readFields (fuel + 1) ((fieldText f).toList ++ rest) =
      match skipSpace rest with
      | ',' :: cs => (readFields fuel cs).map fun (fields, rest) => (g :: fields, rest)
      | '\x7d' :: rest => some ([g], rest)
      | _ => none := by
  have hlength := length_fieldText f
  obtain ⟨cs, hcs, hkey⟩ := readString_quote f.1 (':' :: (f.2.compact.toList ++ rest))
  have htext : (fieldText f).toList ++ rest = '"' :: cs := by
    rw [← hcs]
    simp [fieldText]
  have hvalue : readValue fuel _ = some (g.2, rest) := h.2.reads hends (by omega)
  have hquote : skipSpace ('"' :: cs) = '"' :: cs := skipSpace_cons (by decide) cs
  have hcolon : ∀ cs, skipSpace (':' :: cs) = ':' :: cs := skipSpace_cons (by decide)
  have hread := readFields.eq_def (fuel + 1) ('"' :: cs)
  simp only [hquote, hkey, hcolon, hvalue, h.1, String.ofList_toList] at hread
  rw [htext]
  exact hread

theorem readFields_joined {fs gs : List (String × Json)} (h : List.Forall₂ FieldReads fs gs) (hne : fs ≠ [])
    (rest : List Char) {fuel : Nat} (hfuel : 2 * (joined (fs.map fieldText)).length + 1 ≤ fuel) :
    readFields fuel (joined (fs.map fieldText) ++ '\x7d' :: rest) = some (gs, rest) := by
  induction h generalizing fuel with
  | nil => exact absurd rfl hne
  | @cons f g fs gs hf hfs ih =>
    cases fuel with
    | zero => cases hfuel
    | succ fuel =>
      cases hfs with
      | nil =>
        rw [List.map_singleton, joined_singleton] at *
        rw [readFields_fieldText hf (ends_brace rest) (by omega), skipSpace_cons (by decide)]
        rfl
      | @cons f' g' fs gs hf' hfs =>
        simp only [List.map_cons, joined_cons_cons, List.length_append, List.length_cons] at *
        have hrest : readFields fuel _ = some (g' :: gs, rest) := ih (by simp) (by omega)
        rw [List.append_assoc, List.cons_append, readFields_fieldText hf (ends_comma _) (by omega),
          skipSpace_cons (by decide)]
        simp only [hrest]
        rfl

/-- Joined texts start with the first character of the first of them. -/
theorem joined_starts {p : Char → Prop} {text : String} (h : ∃ c cs, text.toList = c :: cs ∧ p c)
    (texts : List String) (rest : List Char) : ∃ c cs, joined (text :: texts) ++ rest = c :: cs ∧ p c := by
  obtain ⟨c, cs, hcs, hc⟩ := h
  cases texts with
  | nil => exact ⟨c, cs ++ rest, by rw [joined_singleton, hcs]; rfl, hc⟩
  | cons next texts => exact ⟨c, _, by rw [joined_cons_cons, hcs]; rfl, hc⟩

theorem reads_array {vs ws : List Json} (h : List.Forall₂ Reads vs ws) : Reads (.array vs) (.array ws) where
  starts := by
    rw [toList_compact_array]
    exact ⟨'[', _, rfl, by decide⟩
  reads := by
    intro rest fuel _ hfuel
    rw [toList_compact_array] at *
    cases fuel with
    | zero => cases hfuel
    | succ fuel =>
      simp only [List.length_cons, List.length_append] at hfuel
      rw [List.cons_append, List.append_assoc, readValue, skipSpace_cons (by decide)]
      cases h with
      | nil => rfl
      | @cons v w vs ws hv hvs =>
        have hitems : readItems fuel _ = some (w :: ws, rest) :=
          readItems_joined (List.Forall₂.cons hv hvs) (by simp) rest (by omega)
        obtain ⟨c, cs, hcs, hspace, hc⟩ := joined_starts hv.starts (vs.map compact) (']' :: rest)
        rw [List.map_cons, hcs] at hitems
        simp only [List.map_cons, List.cons_append, List.nil_append, hcs, skipSpace_cons hspace]
        split
        · next heq => exact absurd (List.cons.inj heq).1 hc
        · rw [hitems]
          rfl

theorem reads_object {fs gs : List (String × Json)} (h : List.Forall₂ FieldReads fs gs) :
    Reads (.object fs) (.object gs) where
  starts := by
    rw [toList_compact_object]
    exact ⟨'\x7b', _, rfl, by decide⟩
  reads := by
    intro rest fuel _ hfuel
    rw [toList_compact_object] at *
    cases fuel with
    | zero => cases hfuel
    | succ fuel =>
      simp only [List.length_cons, List.length_append] at hfuel
      rw [List.cons_append, List.append_assoc, readValue, skipSpace_cons (by decide)]
      cases h with
      | nil => rfl
      | @cons f g fs gs hf hfs =>
        have hfields : readFields fuel _ = some (g :: gs, rest) :=
          readFields_joined (List.Forall₂.cons hf hfs) (by simp) rest (by omega)
        have hquote : ∃ c cs, (fieldText f).toList = c :: cs ∧ c = '"' := by
          rw [fieldText, String.toList_append, String.toList_append, toList_quote]
          exact ⟨'"', _, rfl, rfl⟩
        obtain ⟨c, cs, hcs, rfl⟩ := joined_starts hquote (fs.map fieldText) ('\x7d' :: rest)
        rw [List.map_cons, hcs] at hfields
        simp only [List.map_cons, List.cons_append, List.nil_append, hcs, skipSpace_cons (c := '"') (by decide)]
        split
        · next heq => exact absurd (List.cons.inj heq).1 (by decide)
        · rw [hfields]
          rfl

/-! ## Texts -/

/-- A text that is read as a value within the limits. -/
theorem Reads.parse? {v w : Json} (h : Reads v w) (hlimits : w.withinLimits = true) :
    Json.parse? v.compact = some w := by
  have hread : readValue (2 * v.compact.toList.length + 1) (v.compact.toList ++ []) = some (w, []) :=
    h.reads Ends.nil (Nat.le_succ _)
  rw [List.append_nil] at hread
  have hwhole : read? v.compact = some w := by
    simp only [read?, hread]
    rfl
  rw [Json.parse?, hwhole, Option.filter_some, hlimits, if_pos rfl]

end Json

namespace Term

/-! ## Documents -/

/-- The document holds nothing but null, booleans, text, machine words, arrays, and objects with text for keys, at most
so deep, and none of its objects starts with a number in the form of a field. -/
inductive Portable : Nat → Term → Prop where
  | null {depth : Nat} : Portable depth .null
  | bool {depth : Nat} (b : Bool) : Portable depth (.bool b)
  | string {depth : Nat} (s : String) : Portable depth (.string s)
  | unsigned {depth : Nat} (v : UInt64) : Portable depth (.number (.unsigned v))
  | signed {depth : Nat} (v : Int64) : Portable depth (.number (.signed v))
  | array {depth : Nat} {items : List Term} : (∀ t ∈ items, Portable depth t) →
      Portable (depth + 1) (.array items)
  | object {depth : Nat} {fields : List (Term × Term)} : (∀ f ∈ fields, ∃ key, f.1 = .string key) →
      (∀ f ∈ fields, Portable depth f.2) → SortedBy Prod.fst fields →
      (∀ s, fields.head? ≠ some (.string numberField, .string s)) → Portable (depth + 1) (.object fields)

/-- What writing a document and reading its text gives. -/
structure Survives (depth : Nat) (t : Term) (v w : Json) (u : Term) : Prop where
  written : t.toJson = .ok v
  reads : v.Reads w
  within : w.withinDepth depth = true
  read : ofJson? w = some u
  equal : (u == t) = true

/-- Only text is read as text. -/
theorem Survives.eq_string {depth : Nat} {t u : Term} {v : Json} {s : String}
    (h : Survives depth t v (.string s) u) : t = .string s := by
  have hread := h.read
  rw [ofJson?, Option.some_inj] at hread
  exact string_beq_iff.1 (hread ▸ h.equal)

/-- The same for documents one after another. -/
structure ItemsSurvive (depth : Nat) (ts : List Term) (vs ws : List Json) (us : List Term) : Prop where
  written : listToJson ts = .ok vs
  reads : List.Forall₂ Json.Reads vs ws
  within : Json.itemsWithinDepth depth ws = true
  read : ofJsonItems? ws = some us
  equal : cmpList us ts = .eq

/-- The same for fields, which are added after the ones that precede them in order. -/
structure FieldsSurvive (depth : Nat) (fields : List (Term × Term)) (fs gs : List (String × Json))
    (us : List (Term × Term)) : Prop where
  written : fieldsToJson fields = .ok fs
  reads : List.Forall₂ Json.FieldReads fs gs
  within : Json.fieldsWithinDepth depth gs = true
  read : ∀ earlier, SortedBy Prod.fst (earlier ++ fields) → ofJsonFields? gs earlier = some (earlier ++ us)
  first : ∀ key s, gs.head? = some (key, .string s) → fields.head? = some (.string key, .string s)
  equal : cmpFields us fields = .eq

section Survival

variable {depth : Nat}

theorem itemsSurvive {ts : List Term} (h : ∀ t ∈ ts, ∃ v w u, Survives depth t v w u) :
    ∃ vs ws us, ItemsSurvive depth ts vs ws us := by
  induction ts with
  | nil => exact ⟨[], [], [], rfl, .nil, rfl, rfl, by rw [cmpList]⟩
  | cons t ts ih =>
    rw [List.forall_mem_cons] at h
    obtain ⟨v, w, u, ht⟩ := h.1
    obtain ⟨vs, ws, us, hts⟩ := ih h.2
    refine ⟨v :: vs, w :: ws, u :: us, ?_, .cons ht.reads hts.reads, ?_, ?_, ?_⟩
    · simp only [listToJson, ht.written, hts.written]
      rfl
    · rw [Json.itemsWithinDepth, ht.within, hts.within]
      rfl
    · simp only [ofJsonItems?, ht.read, hts.read]
      rfl
    · rw [cmpList, beq_iff_cmp.1 ht.equal, hts.equal]
      rfl

/-- A field whose key comes after all others is put at the end. -/
theorem insertField_last {key value : Term} {fields : List (Term × Term)} (h : ∀ f ∈ fields, f.1.cmp key = .lt) :
    insertField key value fields = fields ++ [(key, value)] := by
  induction fields with
  | nil => rfl
  | cons field rest ih =>
    rw [List.forall_mem_cons] at h
    have hgt : key.cmp field.1 = .gt := by
      rw [cmp_swap, h.1]
      rfl
    rw [insertField, hgt]
    simp only [ih h.2]
    rfl

/-- The order of a collection is that of its keys. -/
theorem SortedBy.of_keys {fields fields' : List (Term × Term)} (h : SortedBy Prod.fst fields)
    (hkeys : fields'.map Prod.fst = fields.map Prod.fst) : SortedBy Prod.fst fields' := by
  have hpairwise : (fields.map Prod.fst).Pairwise fun k k' => k.cmp k' = .lt := List.pairwise_map.2 h
  rw [← hkeys] at hpairwise
  exact List.pairwise_map.1 hpairwise

theorem fieldsSurvive {fields : List (Term × Term)} (hkeys : ∀ f ∈ fields, ∃ key, f.1 = .string key)
    (h : ∀ f ∈ fields, ∃ v w u, Survives depth f.2 v w u) :
    ∃ fs gs us, FieldsSurvive depth fields fs gs us := by
  induction fields with
  | nil =>
    refine ⟨[], [], [], rfl, .nil, rfl, fun earlier _ => ?_, (fun _ _ he => by cases he), by rw [cmpFields]⟩
    rw [ofJsonFields?, List.append_nil]
  | cons field rest ih =>
    rw [List.forall_mem_cons] at h hkeys
    obtain ⟨key, hkey⟩ := hkeys.1
    obtain ⟨v, w, u, hv⟩ := h.1
    obtain ⟨fs, gs, us, hrest⟩ := ih hkeys.2 h.2
    obtain ⟨k, value⟩ := field
    obtain rfl : k = .string key := hkey
    refine ⟨(key, v) :: fs, (key, w) :: gs, (.string key, u) :: us, ?_, .cons ⟨rfl, hv.reads⟩ hrest.reads, ?_,
      fun earlier hsorted => ?_, fun key' s hhead => ?_, ?_⟩
    · simp only [fieldsToJson, toJson, hv.written, hrest.written]
      rfl
    · rw [Json.fieldsWithinDepth, hv.within, hrest.within]
      rfl
    · have hlast : ∀ f ∈ earlier, f.1.cmp (.string key) = .lt := fun f hf =>
        (List.pairwise_append.1 hsorted).2.2 f hf _ List.mem_cons_self
      have hlater : SortedBy Prod.fst (earlier ++ [(.string key, u)] ++ rest) := hsorted.of_keys (by simp)
      simp only [ofJsonFields?, hv.read, insertField_last hlast]
      rw [hrest.read _ hlater, List.append_assoc]
      rfl
    · obtain ⟨rfl, rfl⟩ := Prod.mk.inj (Option.some.inj hhead)
      have hvalue : value = .string s := hv.eq_string
      rw [hvalue]
      rfl
    · rw [cmpFields, beq_iff_cmp.1 hv.equal, hrest.equal, beq_iff_cmp.1 (beq_refl _)]
      rfl

/-- Fields that do not start with a number in the form of a field are read as fields. -/
theorem ofJson?_object {fs : List (String × Json)} (h : ∀ s, fs.head? ≠ some (numberField, .string s)) :
    ofJson? (.object fs) = (ofJsonFields? fs []).map .object := by
  rcases fs with _ | ⟨⟨key, v⟩, rest⟩
  · rw [ofJson?]
    rintro _ _ _ ⟨⟩
  · cases v with
    | string s =>
      have hkey : key ≠ numberField := fun heq => h s (by rw [heq]; rfl)
      rw [ofJson?, if_neg (by simpa using hkey), ofJsonFields?]
      simp only [ofJson?, insertField]
    | _ =>
      rw [ofJson?]
      rintro _ _ _ ⟨⟩

example : ofJson? (.object [(numberField, .string "5")]) = some (.number 5) := by cbv

theorem survives_number {n : Number} {i : Int} (hn : numberToJson n = .ok (.number n))
    (htext : Json.numberText n = Number.intText i) (hi : Number.FitsWord i) (hexact : n.exact = .finite i) :
    Survives depth (.number n) (.number n) (.number (.ofInt i)) (.number (.ofInt i)) := by
  refine ⟨by rw [toJson, hn], Json.reads_number htext hi, ?_, ?_, ?_⟩
  · rw [Json.withinDepth.eq_def]
    exact Number.numberFinite_ofInt i
  · rw [ofJson?, Number.ofJsonNumber_ofInt]
  · rw [number_beq_iff]
    exact ⟨n, rfl, (Number.exact_ofInt i).trans hexact.symm⟩

/-- Every portable document is written, and read as a document equal to it. -/
theorem Portable.survives {t : Term} (h : Portable depth t) : ∃ v w u, Survives depth t v w u := by
  induction h with
  | null => exact ⟨_, _, _, rfl, Json.reads_null, by rw [Json.withinDepth.eq_def], rfl, beq_refl _⟩
  | bool b => exact ⟨_, _, _, rfl, Json.reads_bool b, by rw [Json.withinDepth.eq_def], rfl, beq_refl _⟩
  | string s => exact ⟨_, _, _, rfl, Json.reads_string s, by rw [Json.withinDepth.eq_def], rfl, beq_refl _⟩
  | unsigned v => exact ⟨_, _, _, survives_number rfl rfl (Number.fitsWord_toNat v) rfl⟩
  | signed v => exact ⟨_, _, _, survives_number rfl rfl (Number.fitsWord_toInt v) rfl⟩
  | @array depth items _ ih =>
    obtain ⟨vs, ws, us, h⟩ := itemsSurvive ih
    refine ⟨.array vs, .array ws, .array us, ?_, Json.reads_array h.reads, ?_, ?_, ?_⟩
    · rw [toJson, h.written]
      rfl
    · rw [Json.withinDepth, h.within]
    · rw [ofJson?, h.read]
      rfl
    · rw [beq_iff_cmp, cmp, h.equal]
  | @object depth fields hkeys _ hsorted hmark ih =>
    obtain ⟨fs, gs, us, h⟩ := fieldsSurvive hkeys ih
    refine ⟨.object fs, .object gs, .object us, ?_, Json.reads_object h.reads, ?_, ?_, ?_⟩
    · rw [toJson, h.written]
      rfl
    · rw [Json.withinDepth, h.within]
    · rw [ofJson?_object fun s hhead => hmark s (h.first numberField s hhead), h.read [] hsorted]
      rfl
    · rw [beq_iff_cmp, cmp, h.equal]

/-- The text of a portable document that is nested no deeper than a text may be is read as a document equal to it. -/
theorem Portable.parse?_compactJson {t : Term} (h : Portable Json.maxDepth t) :
    ∃ text u, t.compactJson = .ok text ∧ parse? text = some u ∧ (u == t) = true := by
  obtain ⟨v, w, u, hsurvives⟩ := h.survives
  refine ⟨v.compact, u, ?_, ?_, hsurvives.equal⟩
  · rw [compactJson, hsurvives.written]
    rfl
  · rw [parse?, hsurvives.reads.parse? hsurvives.within, Option.bind_some, hsurvives.read]

end Survival
end Term

namespace Builtin

/-- The functions of the language that write and read text undo each other on portable documents. -/
theorem jsonUnmarshal_jsonMarshal {t : Term} (h : t.Portable Json.maxDepth) :
    ∃ text u, jsonMarshal [t] = Operand.value (.string text) ∧ jsonUnmarshal [.string text] = Operand.value u ∧
      (u == t) = true := by
  obtain ⟨text, u, hwritten, hread, hequal⟩ := h.parse?_compactJson
  refine ⟨text, u, ?_, ?_, hequal⟩
  · rw [jsonMarshal, hwritten]
  · simp only [jsonUnmarshal, Operand.string, bind, Except.bind, hread]

end Builtin
end PolicyEngine
