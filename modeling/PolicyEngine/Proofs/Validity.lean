import PolicyEngine.Builtin.Core
import PolicyEngine.Proofs.Rereading

/-!
Valid texts and texts that are read. A text of JSON is read as a document if and only if it is valid and legible: in an
object that starts with the field in which a number stands as text, that text is one of a number and no field follows.
Without such objects, the test of a text tells whether it will be read.
-/
namespace PolicyEngine

variable {items : List Json} {fields : List (String × Json)}

namespace Json

/-- If some fields start with the one in which a number stands as text, they hold a number and nothing else. -/
def HoldNumber (fields : List (String × Json)) : Prop :=
  ∀ s rest, fields = (Term.numberField, .string s) :: rest → (Number.ofText? s).isSome = true ∧ rest = []

/-- Every object in a value that starts like a number holds one. -/
inductive Legible : Json → Prop where
  | null : Legible .null
  | bool (b : Bool) : Legible (.bool b)
  | number (n : Number) : Legible (.number n)
  | string (s : String) : Legible (.string s)
  | array {items : List Json} (hitems : ∀ v ∈ items, Legible v) : Legible (.array items)
  | object {fields : List (String × Json)} (hfields : ∀ f ∈ fields, Legible f.2) (hnumber : HoldNumber fields) :
    Legible (.object fields)

theorem legible_array_iff : (array items).Legible ↔ ∀ v ∈ items, v.Legible := by
  refine ⟨fun h => ?_, .array⟩
  cases h with
  | array hitems => exact hitems

theorem legible_object_iff : (object fields).Legible ↔ (∀ f ∈ fields, f.2.Legible) ∧ HoldNumber fields := by
  refine ⟨fun h => ?_, fun h => .object h.1 h.2⟩
  cases h with
  | object hfields hnumber => exact ⟨hfields, hnumber⟩

end Json

namespace Term

/-- An object that starts like a number is read if and only if it holds one. -/
theorem isSome_ofJson?_numberField (s : String) (rest : List (String × Json)) :
    (ofJson? (.object ((numberField, .string s) :: rest))).isSome = true ↔
      (Json.object ((numberField, .string s) :: rest)).Legible := by
  have hread : (ofJson? (.object ((numberField, .string s) :: rest))).isSome = true ↔
      (Number.ofText? s).isSome = true ∧ rest = [] := by
    rw [ofJson?, if_pos (by simp)]
    split
    · next hrest => rw [Option.isSome_map, and_iff_left (List.isEmpty_iff.1 hrest)]
    · next hrest => exact iff_of_false Bool.false_ne_true fun h => hrest (List.isEmpty_iff.2 h.2)
  rw [hread, Json.legible_object_iff]
  constructor
  · rintro ⟨hnumber, rfl⟩
    refine ⟨List.forall_mem_singleton.2 (.string s), ?_⟩
    rintro _ _ ⟨⟩
    exact ⟨hnumber, rfl⟩
  · rintro ⟨-, hnumber⟩
    exact hnumber s rest rfl

/-- An object that starts in another way is read if and only if its fields are. -/
theorem isSome_ofJson?_object (h : ∀ s, fields.head? ≠ some (numberField, .string s))
    (hfields : (ofJsonFields? fields []).isSome = true ↔ ∀ f ∈ fields, f.2.Legible) :
    (ofJson? (.object fields)).isSome = true ↔ (Json.object fields).Legible := by
  have hnumber : Json.HoldNumber fields := fun s rest heq => absurd (by rw [heq]; rfl) (h s)
  rw [ofJson?_object h, Option.isSome_map, hfields, Json.legible_object_iff, and_iff_left hnumber]

mutual
/-- A value stands for a document if and only if it is legible. -/
theorem isSome_ofJson?_iff : ∀ v : Json, (ofJson? v).isSome = true ↔ v.Legible
  | .null => iff_of_true rfl .null
  | .bool b => iff_of_true rfl (.bool b)
  | .number n => iff_of_true rfl (.number n)
  | .string s => iff_of_true rfl (.string s)
  | .array items => by
    rw [ofJson?, Option.isSome_map, isSome_ofJsonItems?_iff items, Json.legible_array_iff]
  | .object fields => by
    by_cases hnumber : ∃ s, fields.head? = some (numberField, .string s)
    · obtain ⟨s, hs⟩ := hnumber
      obtain ⟨rest, rfl⟩ := List.head?_eq_some_iff.1 hs
      exact isSome_ofJson?_numberField s rest
    · exact isSome_ofJson?_object (not_exists.1 hnumber) (isSome_ofJsonFields?_iff fields [])
theorem isSome_ofJsonItems?_iff : ∀ items : List Json, (ofJsonItems? items).isSome = true ↔ ∀ v ∈ items, v.Legible
  | [] => iff_of_true rfl (List.forall_mem_nil _)
  | v :: rest => by
    rw [List.forall_mem_cons, ← isSome_ofJson?_iff v, ← isSome_ofJsonItems?_iff rest, ofJsonItems?]
    cases ofJson? v with
    | none => simp
    | some t => simp
theorem isSome_ofJsonFields?_iff : ∀ (fields : List (String × Json)) (earlier : List (Term × Term)),
    (ofJsonFields? fields earlier).isSome = true ↔ ∀ f ∈ fields, f.2.Legible
  | [], earlier => iff_of_true rfl (List.forall_mem_nil _)
  | (k, v) :: rest, earlier => by
    rw [List.forall_mem_cons, ← isSome_ofJson?_iff v, ofJsonFields?]
    cases ofJson? v with
    | none => simp
    | some t => simp [isSome_ofJsonFields?_iff rest]
end

/-- With a field after it, the number is not read as one, nor the object as an object. -/
example : ofJson? (.object [(numberField, .string "1"), ("a", .null)]) = none := by cbv

end Term

namespace Builtin

theorem jsonIsValid_eq (s : String) :
    jsonIsValid [.string s] = Operand.value (.bool (Json.parse? s).isSome) := rfl

theorem jsonUnmarshal_eq_value_iff {s : String} {t : Term} :
    jsonUnmarshal [.string s] = Operand.value t ↔ Term.parse? s = some t := by
  simp only [jsonUnmarshal, Operand.string, bind, Except.bind, Operand.value]
  cases Term.parse? s with
  | none => simp
  | some u => simp

/-- A text is read as a document if and only if it is valid and legible. -/
theorem jsonUnmarshal_succeeds_iff (s : String) :
    (∃ t, jsonUnmarshal [.string s] = Operand.value t) ↔
      jsonIsValid [.string s] = Operand.value (.bool true) ∧ ∀ v, Json.parse? s = some v → v.Legible := by
  have hvalid : jsonIsValid [.string s] = Operand.value (.bool true) ↔ (Json.parse? s).isSome = true := by
    rw [jsonIsValid_eq, Operand.value, Operand.value, Except.ok.injEq, Option.some.injEq, Term.bool.injEq]
  simp only [jsonUnmarshal_eq_value_iff, ← Option.isSome_iff_exists, hvalid, Term.parse?]
  cases Json.parse? s with
  | none => simp
  | some v => simp [Term.isSome_ofJson?_iff]

end Builtin
end PolicyEngine
