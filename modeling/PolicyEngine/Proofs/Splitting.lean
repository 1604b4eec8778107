import Mathlib.Data.List.Infix
import PolicyEngine.Builtin.Strings

/-!
Splitting, joining and replacing. A text is scanned for a delimiter from the left: past an occurrence the scan goes on at
its end, and from any other place at the next character. The pieces that are found this way, joined by the delimiter, are
the text again, none of them contains the delimiter, and joined by another text they are the text with every occurrence
replaced. A text that is split into its characters is joined from them with nothing in between.
-/
namespace PolicyEngine

namespace Text

variable {d e piece cs rest : List Char} {c : Char} {pieces : List (List Char)}

/-! ## The scan for a delimiter -/

theorem dropStart?_eq_some_iff : dropStart? d cs = some rest ↔ cs = d ++ rest := by
  induction d generalizing cs with
  | nil => simp [dropStart?]
  | cons p d ih =>
    cases cs with
    | nil => simp [dropStart?]
    | cons c cs =>
      rw [dropStart?, List.cons_append, List.cons.injEq]
      split
      · next heq => rw [ih, and_iff_right (eq_of_beq heq).symm]
      · next hne => exact iff_of_false (fun h => nomatch h) fun h => hne (beq_iff_eq.2 h.1.symm)

theorem dropStart?_eq_none (h : ¬ d <+: cs) : dropStart? d cs = none := by
  rw [Option.eq_none_iff_forall_ne_some]
  intro rest hrest
  exact h ⟨rest, (dropStart?_eq_some_iff.1 hrest).symm⟩

theorem splitFrom_skip (d : List Char) (skip : Nat) (cs : List Char) :
    splitFrom d skip cs = splitFrom d 0 (cs.drop skip) := by
  induction cs generalizing skip with
  | nil => simp [splitFrom]
  | cons c cs ih =>
    cases skip with
    | zero => rfl
    | succ skip => rw [splitFrom, ih, List.drop_succ_cons]

/-- An occurrence ends a piece, and the scan goes on behind it. -/
theorem splitFrom_found (hd : d ≠ []) (cs : List Char) : splitFrom d 0 (d ++ cs) = [] :: splitFrom d 0 cs := by
  obtain ⟨p, d, rfl⟩ := List.exists_cons_of_ne_nil hd
  have hfound : dropStart? (p :: d) (p :: (d ++ cs)) = some cs := dropStart?_eq_some_iff.2 rfl
  rw [List.cons_append, splitFrom, hfound]
  simp only [List.length_cons, Nat.add_sub_cancel]
  rw [splitFrom_skip, List.drop_left]

/-- A character at which no occurrence starts is the next one of its piece. -/
theorem splitFrom_passed (h : ¬ d <+: c :: cs) : splitFrom d 0 (c :: cs) = consPiece c (splitFrom d 0 cs) := by
  rw [splitFrom, dropStart?_eq_none h]

/-- What holds at the end of a text, and is kept where the scan for a delimiter passes an occurrence of it and where it
passes another character, holds of every text. -/
@[elab_as_elim]
theorem scan_induction {motive : List Char → Prop} (hd : d ≠ []) (ends : motive [])
    (found : ∀ cs, motive cs → motive (d ++ cs))
    (passed : ∀ c cs, ¬ d <+: c :: cs → motive cs → motive (c :: cs)) (cs : List Char) : motive cs := by
  induction hn : cs.length using Nat.strong_induction_on generalizing cs with
  | _ n ih =>
    subst hn
    by_cases hfound : d <+: cs
    · obtain ⟨rest, rfl⟩ := hfound
      have hlength := List.length_pos_of_ne_nil hd
      exact found rest (ih _ (by rw [List.length_append]; omega) rest rfl)
    · cases cs with
      | nil => exact ends
      | cons c cs => exact passed c cs hfound (ih _ (by simp) cs rfl)

/-! ## Pieces joined -/

theorem consPiece_ne_nil (c : Char) (pieces : List (List Char)) : consPiece c pieces ≠ [] := by
  cases pieces <;> exact List.cons_ne_nil _ _

theorem splitFrom_ne_nil (hd : d ≠ []) (cs : List Char) : splitFrom d 0 cs ≠ [] := by
  induction cs using scan_induction hd with
  | ends => exact List.cons_ne_nil _ _
  | found cs ih => exact splitFrom_found hd cs ▸ List.cons_ne_nil _ _
  | passed c cs h ih => exact splitFrom_passed h ▸ consPiece_ne_nil c _

theorem join_cons (piece : List Char) (h : pieces ≠ []) : join e (piece :: pieces) = piece ++ e ++ join e pieces := by
  cases pieces with
  | nil => exact absurd rfl h
  | cons next pieces => rfl

theorem join_consPiece (c : Char) (pieces : List (List Char)) : join e (consPiece c pieces) = c :: join e pieces := by
  rcases pieces with _ | ⟨piece, _ | ⟨next, pieces⟩⟩ <;> rfl

theorem join_splitFrom (hd : d ≠ []) (cs : List Char) : join d (splitFrom d 0 cs) = cs := by
  induction cs using scan_induction hd with
  | ends => rfl
  | found cs ih => rw [splitFrom_found hd, join_cons _ (splitFrom_ne_nil hd cs), ih, List.nil_append]
  | passed c cs h ih => rw [splitFrom_passed h, join_consPiece, ih]

/-- A text starts with its first piece. -/
theorem isPrefix_of_splitFrom (hd : d ≠ []) (h : splitFrom d 0 cs = piece :: pieces) : piece <+: cs := by
  have hjoin := join_splitFrom hd cs
  rw [h] at hjoin
  cases pieces with
  | nil => exact ⟨[], by rw [List.append_nil]; exact hjoin⟩
  | cons next pieces => exact ⟨d ++ join d (next :: pieces), by rw [← List.append_assoc]; exact hjoin⟩

/-- An occurrence in a longer first piece would start in the piece, or at the character before it; and there the scan
would have found it. -/
theorem not_infix_of_mem_splitFrom (hd : d ≠ []) (cs : List Char) : ∀ piece ∈ splitFrom d 0 cs, ¬ d <:+: piece := by
  have hempty : ¬ d <:+: [] := fun h => hd (List.infix_nil.1 h)
  induction cs using scan_induction hd with
  | ends => rwa [splitFrom, List.forall_mem_singleton]
  | found cs ih =>
    rw [splitFrom_found hd, List.forall_mem_cons]
    exact ⟨hempty, ih⟩
  | passed c cs h ih =>
    rw [splitFrom_passed h]
    obtain ⟨piece, pieces, hpieces⟩ := List.exists_cons_of_ne_nil (splitFrom_ne_nil hd cs)
    rw [hpieces, List.forall_mem_cons] at ih
    rw [hpieces, consPiece, List.forall_mem_cons]
    refine ⟨fun hinfix => ?_, ih.2⟩
    rcases List.infix_cons_iff.1 hinfix with hstart | hlater
    · have hpiece : c :: piece <+: c :: cs := (List.prefix_cons_inj c).2 (isPrefix_of_splitFrom hd hpieces)
      exact h (hstart.trans hpiece)
    · exact ih.1 hlater

theorem join_characters (cs : List Char) : join [] (cs.map ([·])) = cs := by
  induction cs with
  | nil => rfl
  | cons c cs ih =>
    cases cs with
    | nil => rfl
    | cons next cs => rw [List.map_cons, join_cons _ (by simp), ih, List.append_nil, List.singleton_append]

/-- The pieces of a text, joined by the delimiter that they were split at, are the text. -/
theorem join_split (d cs : List Char) : join d (split d cs) = cs := by
  rw [split]
  split
  · next hd =>
    obtain rfl := List.isEmpty_iff.1 hd
    exact join_characters cs
  · next hd => exact join_splitFrom (by simpa using hd) cs

theorem split_of_ne_nil (hd : d ≠ []) (cs : List Char) : split d cs = splitFrom d 0 cs :=
  if_neg (by simpa using hd)

/-! ## Replacing -/

theorem replaceFrom_skip (d e : List Char) (skip : Nat) (cs : List Char) :
    replaceFrom d e skip cs = replaceFrom d e 0 (cs.drop skip) := by
  induction cs generalizing skip with
  | nil => simp [replaceFrom]
  | cons c cs ih =>
    cases skip with
    | zero => rfl
    | succ skip => rw [replaceFrom, ih, List.drop_succ_cons]

theorem replace_of_ne_nil (hd : d ≠ []) (e cs : List Char) : replace d e cs = replaceFrom d e 0 cs :=
  if_neg (by simpa using hd)

/-- The scan puts the new text in place of an occurrence and goes on behind it. -/
theorem replace_found (hd : d ≠ []) (e cs : List Char) : replace d e (d ++ cs) = e ++ replace d e cs := by
  rw [replace_of_ne_nil hd, replace_of_ne_nil hd]
  obtain ⟨p, d, rfl⟩ := List.exists_cons_of_ne_nil hd
  have hfound : dropStart? (p :: d) (p :: (d ++ cs)) = some cs := dropStart?_eq_some_iff.2 rfl
  rw [List.cons_append, replaceFrom, hfound]
  simp only [List.length_cons, Nat.add_sub_cancel]
  rw [replaceFrom_skip, List.drop_left]

/-- A character at which no occurrence starts is kept. -/
theorem replace_passed (hd : d ≠ []) (e : List Char) (h : ¬ d <+: c :: cs) :
    replace d e (c :: cs) = c :: replace d e cs := by
  rw [replace_of_ne_nil hd, replace_of_ne_nil hd, replaceFrom, dropStart?_eq_none h]

/-- What the scan leaves is the pieces of the text, joined by the new text. -/
theorem replace_eq_join (hd : d ≠ []) (e cs : List Char) : replace d e cs = join e (split d cs) := by
  rw [split_of_ne_nil hd]
  induction cs using scan_induction hd with
  | ends => exact replace_of_ne_nil hd e []
  | found cs ih => rw [replace_found hd, splitFrom_found hd, join_cons _ (splitFrom_ne_nil hd cs), ih, List.nil_append]
  | passed c cs h ih => rw [replace_passed hd e h, splitFrom_passed h, join_consPiece, ih]

end Text

namespace Builtin

open Text

/-! ## The functions of the language -/

/-- The pieces of a text as texts. -/
def pieces (s d : String) : List String := (Text.split d.toList s.toList).map String.ofList

theorem toList_pieces (s d : String) : (pieces s d).map String.toList = Text.split d.toList s.toList := by
  simp [pieces, Function.comp_def]

theorem stringsFrom_map (index : Nat) (texts : List String) :
    Operand.stringsFrom index (texts.map .string) = .ok texts := by
  induction texts generalizing index with
  | nil => rfl
  | cons text texts ih => simp only [List.map_cons, Operand.stringsFrom, ih, Except.map]

theorem split_eq (s d : String) :
    split [.string s, .string d] = Operand.value (.array ((pieces s d).map .string)) := by
  simp [split, Operand.string, bind, Except.bind, pieces, Function.comp_def]

theorem concat_eq (e : String) (texts : List String) :
    concat [.string e, .array (texts.map .string)] =
      Operand.value (.string (String.ofList (join e.toList (texts.map String.toList)))) := by
  simp only [concat, Operand.string, Operand.strings, stringsFrom_map, bind, Except.bind]

theorem replace_eq (s d e : String) :
    replace [.string s, .string d, .string e] =
      Operand.value (.string (String.ofList (Text.replace d.toList e.toList s.toList))) := by
  simp only [replace, Operand.string, bind, Except.bind]

/-- Joined by the delimiter, the pieces that a text is split into are the text, for the empty delimiter as well. A
delimiter that is not empty occurs in none of them, and joined by another text they are the text in which that replaces
the delimiter. -/
theorem split_concat_replace (s d e : String) :
    ∃ texts : List String,
      split [.string s, .string d] = Operand.value (.array (texts.map .string)) ∧
      concat [.string d, .array (texts.map .string)] = Operand.value (.string s) ∧
      (d ≠ "" →
        (∀ text ∈ texts, ¬ d.toList <:+: text.toList) ∧
        ∃ r, replace [.string s, .string d, .string e] = Operand.value (.string r) ∧
          concat [.string e, .array (texts.map .string)] = Operand.value (.string r)) := by
  refine ⟨pieces s d, split_eq s d, ?_, fun hd => ⟨?_, _, replace_eq s d e, ?_⟩⟩
  · rw [concat_eq, toList_pieces, join_split, String.ofList_toList]
  · have hne : d.toList ≠ [] := by simpa using hd
    have hpieces := not_infix_of_mem_splitFrom hne s.toList
    rw [← split_of_ne_nil hne, ← toList_pieces] at hpieces
    exact fun text htext => hpieces _ (List.mem_map_of_mem htext)
  · have hne : d.toList ≠ [] := by simpa using hd
    rw [concat_eq, toList_pieces, replace_eq_join hne]

/-- Of two occurrences that overlap, the text is cut at the first one. -/
theorem split_concat_replace_overlapping :
    split [.string "ababa", .string "aba"] = Operand.value (.array [.string "", .string "ba"]) ∧
      concat [.string "aba", .array [.string "", .string "ba"]] = Operand.value (.string "ababa") ∧
      "aba" ≠ "" ∧ (∀ text ∈ ["", "ba"], ¬ "aba".toList <:+: text.toList) ∧
      replace [.string "ababa", .string "aba", .string "-"] = Operand.value (.string "-ba") ∧
      concat [.string "-", .array [.string "", .string "ba"]] = Operand.value (.string "-ba") := by
  obtain ⟨texts, hsplit, hconcat, hreplaced⟩ := split_concat_replace "ababa" "aba" "-"
  have hne : "aba" ≠ "" := by decide
  obtain ⟨hnone, r, hreplace, hjoined⟩ := hreplaced hne
  have hpieces : split [.string "ababa", .string "aba"] = Operand.value (.array [.string "", .string "ba"]) := by rfl
  have hresult : replace [.string "ababa", .string "aba", .string "-"] = Operand.value (.string "-ba") := by rfl
  obtain rfl : texts = ["", "ba"] :=
    List.map_injective_iff.2 (fun _ _ => Term.string.inj)
      (Term.array.inj (Option.some.inj (Except.ok.inj (hsplit.symm.trans hpieces))))
  exact ⟨hpieces, hconcat, hne, hnone, hresult, hjoined.trans (hreplace.symm.trans hresult)⟩

end Builtin
end PolicyEngine
