import PolicyEngine.Proofs.Integers
import PolicyEngine.Proofs.Signatures
import PolicyEngine.Proofs.Splitting

/-!
Positions in texts. A position counts the characters before it, for the search of a text in another one as for the cut of
a text at a place. So the text that is found is the one that is cut out where it was found, at no place before is it cut
out, and the two parts of a text cut at a place are the text.
-/
namespace PolicyEngine

namespace Text

variable {t cs rest : List Char} {c : Char} {i : Nat}

/-! ## The first occurrence -/

theorem indexOf?_of_starts (h : t <+: cs) : indexOf? t cs = some 0 := by
  obtain ⟨rest, rfl⟩ := h
  cases t with
  | nil => cases rest <;> rfl
  | cons p t =>
    have hfound : dropStart? (p :: t) (p :: (t ++ rest)) = some rest := dropStart?_eq_some_iff.2 rfl
    rw [List.cons_append, indexOf?, hfound]

theorem indexOf?_cons_of_not_starts (h : ¬ t <+: c :: cs) :
    indexOf? t (c :: cs) = (indexOf? t cs).map (· + 1) := by
  rw [indexOf?, dropStart?_eq_none h]

theorem indexOf?_nil_of_not_starts (h : ¬ t <+: []) : indexOf? t [] = none := by
  cases t with
  | nil => exact absurd List.nil_prefix h
  | cons p t => rfl

/-- The text occurs at the position that is found, and at none before. -/
theorem first_of_indexOf? (h : indexOf? t cs = some i) :
    i ≤ cs.length ∧ t <+: cs.drop i ∧ ∀ j < i, ¬ t <+: cs.drop j := by
  induction cs generalizing i with
  | nil =>
    by_cases hstart : t <+: []
    · obtain rfl : 0 = i := Option.some.inj ((indexOf?_of_starts hstart).symm.trans h)
      exact ⟨Nat.le_refl 0, hstart, fun j hj => absurd hj (Nat.not_lt_zero j)⟩
    · cases (indexOf?_nil_of_not_starts hstart).symm.trans h
  | cons c cs ih =>
    by_cases hstart : t <+: c :: cs
    · obtain rfl : 0 = i := Option.some.inj ((indexOf?_of_starts hstart).symm.trans h)
      exact ⟨Nat.zero_le _, hstart, fun j hj => absurd hj (Nat.not_lt_zero j)⟩
    · obtain ⟨k, hk, rfl⟩ := Option.map_eq_some_iff.1 ((indexOf?_cons_of_not_starts hstart).symm.trans h)
      obtain ⟨hle, hfound, hbefore⟩ := ih hk
      refine ⟨Nat.succ_le_succ hle, hfound, fun j hj => ?_⟩
      cases j with
      | zero => exact hstart
      | succ j => exact hbefore j (Nat.lt_of_succ_lt_succ hj)

/-- A position is found if and only if the text occurs. -/
theorem isSome_indexOf?_iff : (indexOf? t cs).isSome = true ↔ t <:+: cs := by
  induction cs with
  | nil =>
    by_cases hstart : t <+: []
    · rw [indexOf?_of_starts hstart]
      exact iff_of_true rfl hstart.isInfix
    · rw [indexOf?_nil_of_not_starts hstart]
      exact iff_of_false nofun fun h => hstart (List.infix_nil.1 h ▸ List.nil_prefix)
  | cons c cs ih =>
    by_cases hstart : t <+: c :: cs
    · rw [indexOf?_of_starts hstart]
      exact iff_of_true rfl hstart.isInfix
    · rw [indexOf?_cons_of_not_starts hstart, Option.isSome_map, ih, List.infix_cons_iff]
      exact (or_iff_right hstart).symm

theorem indexOf?_eq_zero_iff : indexOf? t cs = some 0 ↔ t <+: cs :=
  ⟨fun h => (first_of_indexOf? h).2.1, indexOf?_of_starts⟩

/-- Before the offset of the first occurrence there are as many characters as its position says. -/
theorem map_length_upTo (t cs : List Char) :
    (offsetOf? t cs).map (fun offset => (upTo offset cs).length) = indexOf? t cs := by
  induction cs with
  | nil => cases t <;> rfl
  | cons c cs ih =>
    rw [offsetOf?, indexOf?]
    cases dropStart? t (c :: cs) with
    | some rest => rfl
    | none =>
      have hpos : ∀ offset, c.utf8Size + offset ≠ 0 := fun offset => by have := c.utf8Size_pos; omega
      simp only [Option.map_map, ← ih, Function.comp_def, upTo, if_neg (hpos _), Nat.add_sub_cancel_left,
        List.length_cons]

theorem isSome_dropStart?_iff : (dropStart? t cs).isSome = true ↔ t <+: cs := by
  rw [Option.isSome_iff_exists]
  exact exists_congr fun rest => dropStart?_eq_some_iff.trans eq_comm

/-- A text occurs at a position if it is what is cut out there. -/
theorem take_drop_eq_iff : (cs.drop i).take t.length = t ↔ t <+: cs.drop i :=
  ⟨fun h => h ▸ List.take_prefix _ _, fun h => (List.prefix_iff_eq_take.1 h).symm⟩

end Text

namespace Builtin

open Registry

variable {draw : Draw} {s t : String} {i j : Int} {x y : Term}

/-! ## Integers as operands -/

theorem integer_ofInt (h : Number.fitsSigned i = true) : Operand.integer (.ofInt i) = .ok i := by
  have hexact := Number.exactInt?_ofInt i
  simp only [Operand.integer, Term.ofInt, Number.isInteger_of_exactInt? hexact, Number.toSigned?,
    Number.toInt?_of_exactInt? hexact, h, if_true]

/-- A position in a text of an admissible length is a number of 64 bits. -/
theorem integer_of_le_length (hs : s.length < 2 ^ 63) (hi : 0 ≤ i) (hle : i ≤ s.length) :
    Operand.integer (.ofInt i) = .ok i := by
  refine integer_ofInt ?_
  simp only [Number.fitsSigned, Bool.and_eq_true, decide_eq_true_iff]
  omega

/-! ## The functions of the language -/

/-- The position of the first occurrence, or minus one. -/
def position (s t : String) : Int := (Text.indexOf? t.toList s.toList).elim (-1) Nat.cast

/-- The characters of a text from a position on, as many as asked for. -/
def cut (s : String) (start length : Int) : String :=
  String.ofList (if length < 0 then s.toList.drop start.toNat else (s.toList.drop start.toNat).take length.toNat)

theorem position_nonneg_iff : 0 ≤ position s t ↔ t.toList <:+: s.toList := by
  rw [position, ← Text.isSome_indexOf?_iff]
  cases Text.indexOf? t.toList s.toList with
  | none => exact iff_of_false (by decide) nofun
  | some i => exact iff_of_true (Int.natCast_nonneg i) rfl

theorem position_eq_zero_iff : position s t = 0 ↔ t.toList <+: s.toList := by
  rw [position, ← Text.indexOf?_eq_zero_iff]
  cases Text.indexOf? t.toList s.toList with
  | none => exact iff_of_false (by decide) nofun
  | some i => rw [Option.elim_some, Int.natCast_eq_zero, Option.some.injEq]

/-- What is cut out at a position is the text if and only if the text occurs there. -/
theorem cut_eq_iff : cut s i t.length = t ↔ t.toList <+: s.toList.drop i.toNat := by
  rw [← Text.take_drop_eq_iff, ← String.toList_inj, cut, if_neg (Int.natCast_nonneg _).not_gt, String.toList_ofList,
    Int.toNat_natCast, String.length_toList]

/-- The text is cut out at the position where it is found, and at no position before. -/
theorem cut_position (h : 0 ≤ position s t) :
    position s t ≤ s.length ∧ cut s (position s t) t.length = t ∧
      ∀ j, 0 ≤ j → j < position s t → cut s j t.length ≠ t := by
  simp only [ne_eq, cut_eq_iff]
  obtain ⟨i, hi⟩ := Option.isSome_iff_exists.1 (Text.isSome_indexOf?_iff.2 (position_nonneg_iff.1 h))
  obtain ⟨hle, hfound, hbefore⟩ := Text.first_of_indexOf? hi
  rw [position, hi, Option.elim_some, Int.toNat_natCast]
  refine ⟨?_, hfound, fun j _ hj => hbefore _ (by omega)⟩
  rw [String.length_toList] at hle
  exact Int.ofNat_le.2 hle

/-- A text cut at a position. -/
theorem toList_cut_append (hi : 0 ≤ i) : (cut s 0 i).toList ++ (cut s i (-1)).toList = s.toList := by
  rw [cut, cut, if_neg hi.not_gt, if_pos (by decide), String.toList_ofList, String.toList_ofList, Int.toNat_zero,
    List.drop_zero, List.take_append_drop]

theorem answers_indexOf (s t : String) :
    (core draw).Answers "indexof" [.string s, .string t] (.ofInt (position s t)) := by
  refine answers_of_run (f := indexOf) rfl ?_
  simp only [indexOf, Operand.string, bind, Except.bind, position, ← Text.map_length_upTo]
  cases Text.offsetOf? t.toList s.toList <;> rfl

theorem answers_contains (s t : String) :
    (core draw).Answers "contains" [.string s, .string t] (.bool (decide (0 ≤ position s t))) := by
  refine answers_of_run (f := stringTest fun s t => (Text.indexOf? t s).isSome) rfl ?_
  simp only [stringTest, Operand.string, bind, Except.bind, position_nonneg_iff, ← Text.isSome_indexOf?_iff,
    Bool.decide_eq_true]

theorem answers_startsWith (s t : String) :
    (core draw).Answers "startswith" [.string s, .string t] (.bool (decide (position s t = 0))) := by
  refine answers_of_run (f := stringTest fun s t => (Text.dropStart? t s).isSome) rfl ?_
  simp only [stringTest, Operand.string, bind, Except.bind, position_eq_zero_iff, ← Text.isSome_dropStart?_iff,
    Bool.decide_eq_true]

theorem answers_count (s : String) : (core draw).Answers "count" [.string s] (.ofInt s.length) :=
  answers_of_run (f := count) rfl rfl

theorem answers_substring (hx : Operand.integer x = .ok i) (hy : Operand.integer y = .ok j) (hi : 0 ≤ i) :
    (core draw).Answers "substring" [.string s, x, y] (.string (cut s i j)) := by
  refine answers_of_run (f := substring) rfl ?_
  simp only [substring, Operand.string, hx, hy, bind, Except.bind, cut]
  rw [if_neg hi.not_gt]

theorem answers_concat (draw : Draw) (d : String) (texts : List String) :
    (core draw).Answers "concat" [.string d, .array (texts.map .string)]
      (.string (String.ofList (Text.join d.toList (texts.map String.toList)))) :=
  answers_of_run (f := concat) rfl (concat_eq d texts)

/-- Positions agree from one function of the language to another. A text contains another one if the position of the first
occurrence is not negative, and starts with it if that is zero. Cut out at this position, with as many characters as the
text has that is searched, a text gives that text, and at no position before. And the parts of a text cut at a position
are joined to the text. Positions are numbers of 64 bits with a sign, which count the characters of every text that fits
into memory. -/
theorem positions_agree (draw : Draw) (s t : String) (hs : s.length < 2 ^ 63) :
    ∃ i n length : Int,
      (core draw).Answers "indexof" [.string s, .string t] (.ofInt i) ∧
      (core draw).Answers "count" [.string t] (.ofInt n) ∧ (core draw).Answers "count" [.string s] (.ofInt length) ∧
      (core draw).Answers "contains" [.string s, .string t] (.bool (decide (0 ≤ i))) ∧
      (0 ≤ i ↔ t.toList <:+: s.toList) ∧
      (core draw).Answers "startswith" [.string s, .string t] (.bool (decide (i = 0))) ∧
      (i = 0 ↔ t.toList <+: s.toList) ∧
      (0 ≤ i →
        (core draw).Answers "substring" [.string s, .ofInt i, .ofInt n] (.string t) ∧
        ∀ j, 0 ≤ j → j < i →
          ∃ u, (core draw).Answers "substring" [.string s, .ofInt j, .ofInt n] (.string u) ∧ u ≠ t) ∧
      ∀ m, 0 ≤ m → m ≤ length →
        ∃ u v, (core draw).Answers "substring" [.string s, .ofInt 0, .ofInt m] (.string u) ∧
          (core draw).Answers "substring" [.string s, .ofInt m, .ofInt (-1)] (.string v) ∧
          (core draw).Answers "concat" [.string "", .array [.string u, .string v]] (.string s) := by
  refine ⟨position s t, t.length, s.length, answers_indexOf s t, answers_count t, answers_count s, answers_contains s t,
    position_nonneg_iff, answers_startsWith s t, position_eq_zero_iff, fun h => ?_, fun m hm hle => ?_⟩
  · obtain ⟨hle, hfound, hbefore⟩ := cut_position h
    have hlength : t.length ≤ s.length := by
      rw [← String.length_toList, ← String.length_toList]
      exact (position_nonneg_iff.1 h).length_le
    have hn : Operand.integer (.ofInt t.length) = .ok (t.length : Int) :=
      integer_of_le_length hs (Int.natCast_nonneg _) (Int.ofNat_le.2 hlength)
    have hcut : ∀ j, 0 ≤ j → j ≤ position s t →
        (core draw).Answers "substring" [.string s, .ofInt j, .ofInt t.length] (.string (cut s j t.length)) :=
      fun j hj hji => answers_substring (integer_of_le_length hs hj (hji.trans hle)) hn hj
    have hat := hcut _ h le_rfl
    rw [hfound] at hat
    exact ⟨hat, fun j hj hji => ⟨_, hcut j hj hji.le, hbefore j hj hji⟩⟩
  · have hzero : Operand.integer (.ofInt 0) = .ok 0 := integer_ofInt rfl
    have hall : Operand.integer (.ofInt (-1)) = .ok (-1) := integer_ofInt rfl
    have hposition : Operand.integer (.ofInt m) = .ok m := integer_of_le_length hs hm hle
    refine ⟨cut s 0 m, cut s m (-1), answers_substring hzero hposition le_rfl, answers_substring hposition hall hm, ?_⟩
    have hjoin := answers_concat draw "" [cut s 0 m, cut s m (-1)]
    rwa [List.map_cons, List.map_singleton, List.map_cons, List.map_singleton, Text.join_cons _ (List.cons_ne_nil _ _),
      Text.join, String.toList_empty, List.append_nil, toList_cut_append hm, String.ofList_toList] at hjoin

/-! ### Characters of several bytes -/

theorem ofInt_inj (h : Term.ofInt i = Term.ofInt j) : i = j := by
  have hexact := congrArg Number.exactInt? (Term.number.inj h)
  rw [Number.exactInt?_ofInt, Number.exactInt?_ofInt] at hexact
  exact Option.some.inj hexact

/-- The first letter is not the start of an occurrence, and the sign after it counts once. -/
theorem positions_agree_accented :
    "é😀éé".length < 2 ^ 63 ∧
    core.Answers "indexof" [.string "é😀éé", .string "éé"] (.ofInt 2) ∧
    core.Answers "contains" [.string "é😀éé", .string "éé"] (.bool true) ∧
    core.Answers "startswith" [.string "é😀éé", .string "éé"] (.bool false) ∧
    core.Answers "substring" [.string "é😀éé", .ofInt 2, .ofInt 2] (.string "éé") ∧
    (∀ j, 0 ≤ j → j < 2 →
      ∃ u, core.Answers "substring" [.string "é😀éé", .ofInt j, .ofInt 2] (.string u) ∧ u ≠ "éé") ∧
    ∃ u v, core.Answers "substring" [.string "é😀éé", .ofInt 0, .ofInt 3] (.string u) ∧
      core.Answers "substring" [.string "é😀éé", .ofInt 3, .ofInt (-1)] (.string v) ∧
      core.Answers "concat" [.string "", .array [.string u, .string v]] (.string "é😀éé") := by
  have hshort : "é😀éé".length < 2 ^ 63 := by decide
  obtain ⟨i, n, length, hindex, hcount, hlength, hcontains, -, hstarts, -, hcut, hparts⟩ :=
    positions_agree .least "é😀éé" "éé" hshort
  obtain rfl : i = 2 := ofInt_inj (hindex.unique (answers_indexOf "é😀éé" "éé"))
  obtain rfl : n = 2 := ofInt_inj (hcount.unique (answers_count "éé"))
  obtain rfl : length = 4 := ofInt_inj (hlength.unique (answers_count "é😀éé"))
  obtain ⟨hat, hbefore⟩ := hcut (by decide)
  exact ⟨hshort, hindex, hcontains, hstarts, hat, hbefore, hparts 3 (by decide) (by decide)⟩

end Builtin
end PolicyEngine
