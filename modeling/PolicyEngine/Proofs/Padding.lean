import PolicyEngine.Builtin.Strings
import PolicyEngine.Proofs.Exactness
import PolicyEngine.Proofs.Rereading

/-!
Integers that are formatted with a width. The text is as long as the width asks for, or as the sign and the digits if they
are longer. It is read back as the integer, with one exception: zeros that fill it up stand behind a minus sign, but before
a plus sign, and a text in which digits stand before a sign is no number.
-/
namespace PolicyEngine.Builtin

variable {d : Directive} {stage : DirectiveStage} {operands : List Term} {flags digits cs rest : List Char} {c : Char}
  {plus : Bool} {n : Number} {i : Int} {width : Nat} {t : Term}

/-! ## Reading a directive -/

theorem formatFrom_read {next : Directive × DirectiveStage} (h : d.read stage c = some next) :
    formatFrom (some (d, stage)) operands (c :: cs) = formatFrom (some next) operands cs := by
  rw [formatFrom.eq_def]
  simp only [h]

theorem formatFrom_verb (h : d.read stage c = none) (hc : c ≠ '%') :
    formatFrom (some (d, stage)) (t :: operands) (c :: cs) =
      d.pad (formatOperand c d t).toList ++ formatFrom none operands cs := by
  rw [formatFrom.eq_def]
  simp only [h, beq_iff_eq, hc, if_false]

/-- Each flag is set once it was read, in whatever order and however often the flags stand. -/
theorem formatFrom_flags (hflags : ∀ c ∈ flags, c = '+' ∨ c = '0') :
    formatFrom (some (d, .flags)) operands (flags ++ rest) =
      formatFrom (some ({ d with zeroPad := d.zeroPad || flags.contains '0', plus := d.plus || flags.contains '+' },
        .flags)) operands rest := by
  induction flags generalizing d with
  | nil => simp
  | cons c flags ih =>
    rw [List.forall_mem_cons] at hflags
    rcases hflags.1 with rfl | rfl
    · rw [List.cons_append, formatFrom_read rfl, ih hflags.2]
      simp
    · rw [List.cons_append, formatFrom_read rfl, ih hflags.2]
      simp

theorem readWidth_digit (hc : isDigit c = true) :
    d.readWidth c = some ({ d with width := Directive.appendDigit d.width c }, .width) := if_pos hc

theorem formatFrom_width (hdigits : Digits digits) :
    formatFrom (some (d, .width)) operands (digits ++ rest) =
      formatFrom (some ({ d with width := digits.foldl Directive.appendDigit d.width }, .width)) operands rest := by
  induction digits generalizing d with
  | nil => rfl
  | cons c digits ih =>
    have hc : d.read .width c = _ := readWidth_digit (hdigits c List.mem_cons_self)
    rw [List.cons_append, formatFrom_read hc, ih fun c hc => hdigits c (List.mem_cons_of_mem _ hc)]
    rfl

theorem foldl_appendDigit (digits : List Char) (n : Nat) :
    digits.foldl Directive.appendDigit (some n) = some (digits.foldl (fun n c => 10 * n + digitValue c) n) := by
  induction digits generalizing n with
  | nil => rfl
  | cons c digits ih => exact ih _

/-- A width is read as the number that its digits write. They do not start with a zero, which is a flag. -/
theorem formatFrom_toDigits (hwidth : 0 < width) (hnone : d.width = none) :
    formatFrom (some (d, .flags)) operands (Nat.toDigits 10 width ++ rest) =
      formatFrom (some ({ d with width := some width }, .width)) operands rest := by
  have hvalue := digitsValue_toDigits width
  have hdigits := digits_toDigits width
  have hhead := Json.head?_toDigits hwidth.ne'
  obtain ⟨c, digits, hcs⟩ := List.exists_cons_of_ne_nil (Nat.toDigits_ne_nil (n := width) (b := 10))
  rw [hcs] at hvalue hdigits hhead ⊢
  have hdigit : isDigit c = true := hdigits c List.mem_cons_self
  have hzero : c ≠ '0' := fun h => hhead (congrArg some h)
  have hread : d.read .flags c = some ({ d with width := Directive.appendDigit d.width c }, .width) := by
    simp only [Directive.read, beq_iff_eq, isDigit_ne hdigit (d := '-') rfl, isDigit_ne hdigit (d := '+') rfl, hzero,
      if_false, readWidth_digit hdigit]
  have hfold : digits.foldl Directive.appendDigit (Directive.appendDigit d.width c) = some width := by
    rw [hnone, ← hvalue]
    exact foldl_appendDigit digits _
  rw [List.cons_append, formatFrom_read hread, formatFrom_width fun c hc => hdigits c (List.mem_cons_of_mem _ hc)]
  simp only [hfold]

/-! ## Filling up -/

/-- A text is filled up to the width, and a longer one is kept. -/
theorem length_pad (d : Directive) (cs : List Char) : (d.pad cs).length = max (d.width.getD 0) cs.length := by
  unfold Directive.pad
  split
  · simp only [List.length_append, List.length_replicate]
    omega
  · split
    · split <;> simp only [List.length_append, List.length_cons, List.length_replicate] <;> omega
    · simp only [List.length_append, List.length_replicate]
      omega

/-- The sign of an integer, a plus sign only where it is asked for. -/
def signText (plus : Bool) (i : Int) : List Char := if i < 0 then ['-'] else if plus then ['+'] else []

theorem sign_signText (plus : Bool) (i : Int) : Sign (decide (i < 0)) (signText plus i) := by
  rw [signText]
  split
  · next hneg => exact decide_eq_true hneg ▸ .minus
  · next hneg =>
    rw [decide_eq_false hneg]
    split
    · exact .plus
    · exact .none

/-- The sign and the digits of an integer, as they stand before they are filled up. -/
def unpadded (plus : Bool) (i : Int) : List Char := signText plus i ++ Nat.toDigits 10 i.natAbs

theorem isGE_cmp_zero (hn : n.exactInt? = some i) : (n.cmp 0).isGE = true ↔ 0 ≤ i := by
  have hzero : (0 : Number).exactInt? = some 0 := rfl
  rw [Number.cmp, hn, hzero]
  exact Std.isGE_compare

theorem toList_signed (d : Directive) (hn : n.exactInt? = some i) :
    (d.signed n n.decimalText).toList = unpadded d.plus i := by
  have hge := isGE_cmp_zero hn
  rw [Directive.signed, Number.decimalText_of_exactInt? hn, Number.intText, unpadded, signText]
  by_cases hneg : i < 0
  · have hge' : (n.cmp 0).isGE = false := Bool.eq_false_iff.2 fun h => (hge.1 h).not_gt hneg
    simp [hge', hneg]
  · have hge' : (n.cmp 0).isGE = true := hge.2 (by omega)
    cases d.plus <;> simp [hge', hneg]

/-- Only a negative integer has a text with a minus sign in front. -/
theorem unpadded_ne_minus (hpos : 0 ≤ i) (rest : List Char) : unpadded plus i ≠ '-' :: rest := by
  intro h
  have hneg : ¬ i < 0 := by omega
  rw [unpadded, signText, if_neg hneg] at h
  cases plus with
  | true => cases h
  | false =>
    have hminus := digits_toDigits i.natAbs '-' (by rw [if_neg Bool.false_ne_true, List.nil_append] at h; simp [h])
    cases hminus

theorem pad_unpadded (hleft : d.leftAlign = false) (plus : Bool) (i : Int) :
    let fill := d.width.getD 0 - (unpadded plus i).length
    d.pad (unpadded plus i) =
      if d.zeroPad then
        if i < 0 then ['-'] ++ (List.replicate fill '0' ++ Nat.toDigits 10 i.natAbs)
        else List.replicate fill '0' ++ unpadded plus i
      else List.replicate fill ' ' ++ unpadded plus i := by
  intro fill
  unfold Directive.pad
  rw [if_neg (by simp [hleft])]
  split
  · split
    · next rest hminus =>
      have hneg : i < 0 := not_le.1 fun hpos => unpadded_ne_minus hpos rest hminus
      have hrest : rest = Nat.toDigits 10 i.natAbs := by
        rw [unpadded, signText, if_pos hneg] at hminus
        exact (List.cons.inj hminus).2.symm
      rw [if_pos hneg, hrest]
      rfl
    · next hplain =>
      have hpos : ¬ i < 0 := fun hneg => hplain _ (by rw [unpadded, signText, if_pos hneg]; rfl)
      rw [if_neg hpos]
  · rfl

/-! ## Reading back -/

/-- Digits before a plus sign are no literal. -/
theorem not_written_of_late_plus {l : Literal} {front back : List Char} (hne : front ≠ []) (hfront : Digits front)
    (hback : Digits back) : ¬ l.Written (front ++ '+' :: back) := by
  have hchars : ∀ c ∈ front ++ '+' :: back, isExponentMark c = false := by
    intro c hc
    rw [List.mem_append, List.mem_cons] at hc
    rcases hc with hc | rfl | hc
    · exact Literal.isExponentMark_of_isDigit (hfront c hc)
    · rfl
    · exact Literal.isExponentMark_of_isDigit (hback c hc)
  intro h
  generalize htext : front ++ '+' :: back = text at h hchars
  obtain ⟨hsign, hmantissa, hexponent⟩ := h
  obtain ⟨c, front, rfl⟩ := List.exists_cons_of_ne_nil hne
  have hc : isDigit c = true := hfront c List.mem_cons_self
  cases hsign with
  | plus => exact isDigit_ne hc rfl (List.cons.inj htext).1
  | minus => exact isDigit_ne hc rfl (List.cons.inj htext).1
  | none =>
    cases hexponent with
    | present hmark _ => rw [hchars _ (by simp)] at hmark; cases hmark
    | absent =>
      rw [List.nil_append, List.append_nil] at htext
      rcases hmantissa.chars '+' (by rw [← htext]; simp) with hplus | hplus <;> cases hplus

theorem ofText?_late_plus (fill n : Nat) (hfill : 0 < fill) :
    Number.ofText? (String.ofList (List.replicate fill '0' ++ '+' :: Nat.toDigits 10 n)) = none := by
  have hzeros : Digits (List.replicate fill '0') := fun c hc => List.eq_of_mem_replicate hc ▸ rfl
  have hne : List.replicate fill '0' ≠ [] := by simpa using hfill.ne'
  have hblank : ∀ c ∈ List.replicate fill '0' ++ '+' :: Nat.toDigits 10 n, Text.isBlank c = false := by
    intro c hc
    rw [List.mem_append, List.mem_cons] at hc
    rcases hc with hc | rfl | hc
    · exact isBlank_of_isDigit (hzeros c hc)
    · decide
    · exact isBlank_of_isDigit (digits_toDigits n c hc)
  have htrim := Text.trimChars_append (List.forall_mem_nil _) hblank
  have hparse : Literal.parse? (List.replicate fill '0' ++ '+' :: Nat.toDigits 10 n) = none :=
    Option.eq_none_iff_forall_ne_some.2 fun l hl =>
      not_written_of_late_plus hne hzeros (digits_toDigits n) (Literal.parse?_eq_some_iff.1 hl)
  rw [List.nil_append] at htrim
  rw [Number.ofText?, String.toList_ofList, Text.trim, htrim, hparse, Option.bind_none]

/-- Zeros are put before a plus sign: where the flags ask for both, the integer has no minus sign, and its text is shorter
than the width. -/
def PlusBehindZeros (d : Directive) (i : Int) : Prop :=
  d.plus = true ∧ d.zeroPad = true ∧ 0 ≤ i ∧ (unpadded d.plus i).length < d.width.getD 0

instance (d : Directive) (i : Int) : Decidable (PlusBehindZeros d i) := inferInstanceAs (Decidable (_ ∧ _))

/-- The text of an integer that is filled up is read as the integer, unless its plus sign stands behind zeros. -/
theorem ofText?_pad (hleft : d.leftAlign = false) (i : Int) :
    Number.ofText? (String.ofList (d.pad (unpadded d.plus i))) =
      if PlusBehindZeros d i then none else some (.ofInt i) := by
  have hspaces : ∀ n, ∀ c ∈ List.replicate n ' ', Text.isBlank c = true := fun n c hc => by
    rw [List.eq_of_mem_replicate hc]
    decide
  have hread : ∀ {sign : List Char}, Sign (decide (i < 0)) sign → ∀ zeros, Number.ofText? (String.ofList
      (sign ++ (List.replicate zeros '0' ++ Nat.toDigits 10 i.natAbs))) = some (.ofInt i) :=
    fun hsign zeros => Number.ofText?_signed (List.forall_mem_nil _) hsign zeros
  have hsign := sign_signText d.plus i
  rw [pad_unpadded hleft]
  split
  · next hzero =>
    split
    · next hneg =>
      rw [if_neg fun h => absurd h.2.2.1 (by omega)]
      exact hread (decide_eq_true hneg ▸ .minus) _
    · next hpos =>
      by_cases hplus : d.plus = true
      · by_cases hfill : (unpadded d.plus i).length < d.width.getD 0
        · have htext : unpadded d.plus i = '+' :: Nat.toDigits 10 i.natAbs := by
            rw [unpadded, signText, if_neg hpos, if_pos hplus]
            rfl
          rw [if_pos ⟨hplus, hzero, by omega, hfill⟩, htext]
          exact ofText?_late_plus _ _ (by rw [← htext]; omega)
        · have hnone : d.width.getD 0 - (unpadded d.plus i).length = 0 := by omega
          rw [if_neg fun h => hfill h.2.2.2, hnone]
          exact hread hsign 0
      · have hempty : signText d.plus i = [] := by rw [signText, if_neg hpos, if_neg hplus]
        rw [hempty] at hsign
        rw [if_neg fun h => hplus h.1, unpadded, hempty]
        exact hread hsign _
  · next hzero =>
    rw [if_neg fun h => hzero h.2.1]
    exact Number.ofText?_signed (hspaces _) hsign 0

/-! ## Formatting an integer -/

/-- A directive for integers: flags and a width. -/
def integerFormat (flags : List Char) (width : Nat) : String :=
  String.ofList ('%' :: (flags ++ (Nat.toDigits 10 width ++ ['d'])))

/-- What the flags and the width say. -/
def flagged (flags : List Char) (width : Nat) : Directive :=
  { zeroPad := flags.contains '0', plus := flags.contains '+', width := some width }

theorem formatOperand_integer (d : Directive) (hn : n.exactInt? = some i) :
    (formatOperand 'd' d (.number n)).toList = unpadded d.plus i := by
  have hinteger : n.isInteger = true := Number.isInteger_of_exactInt? hn
  rw [← toList_signed d hn]
  simp only [formatOperand, hinteger, if_true]

theorem sprintf_integer_eq (hflags : ∀ c ∈ flags, c = '+' ∨ c = '0') (hwidth : 0 < width) (hn : n.exactInt? = some i) :
    sprintf [.string (integerFormat flags width), .array [.number n]] =
      Operand.value (.string (String.ofList
        ((flagged flags width).pad (unpadded (flagged flags width).plus i)))) := by
  have hverb : (flagged flags width).read .width 'd' = none := rfl
  have hformat : formatFrom none [.number n] ('%' :: (flags ++ (Nat.toDigits 10 width ++ ['d']))) =
      (flagged flags width).pad (unpadded (flagged flags width).plus i) := by
    calc formatFrom none [.number n] ('%' :: (flags ++ (Nat.toDigits 10 width ++ ['d'])))
        = formatFrom (some ({}, .flags)) [.number n] (flags ++ (Nat.toDigits 10 width ++ ['d'])) := by
          rw [formatFrom.eq_def]; rfl
      _ = formatFrom (some (flagged flags width, .width)) [.number n] ['d'] := by
          rw [formatFrom_flags hflags, formatFrom_toDigits hwidth rfl]
          simp only [Bool.false_or, flagged]
      _ = (flagged flags width).pad (formatOperand 'd' (flagged flags width) (.number n)).toList ++
            formatFrom none [] [] := formatFrom_verb hverb (by decide)
      _ = (flagged flags width).pad (unpadded (flagged flags width).plus i) := by
          rw [formatOperand_integer _ hn, formatFrom.eq_def]
          exact List.append_nil _
  simp only [sprintf, Operand.string, Operand.array, bind, Except.bind, integerFormat, String.toList_ofList, hformat]

/-- An integer formatted with a width has as many characters as the width or as its sign and its digits, whichever are
more. The text is read as the integer, unless zeros are put before a plus sign: then it is read as no number at all. -/
theorem sprintf_integer (hflags : ∀ c ∈ flags, c = '+' ∨ c = '0') (hwidth : 0 < width) (hn : n.exactInt? = some i) :
    ∃ s : String, sprintf [.string (integerFormat flags width), .array [.number n]] = Operand.value (.string s) ∧
      s.length = max width (unpadded (flags.contains '+') i).length ∧
      Number.ofText? s = if PlusBehindZeros (flagged flags width) i then none else some (.ofInt i) := by
  refine ⟨_, sprintf_integer_eq hflags hwidth hn, ?_, ofText?_pad rfl i⟩
  rw [String.length_ofList, length_pad]
  rfl

example : sprintf [.string "%+05d", .array [.number 42]] = Operand.value (.string "00+42") := by rfl

end PolicyEngine.Builtin
