import PolicyEngine.Proofs.Plain
import PolicyEngine.Proofs.Recollection
import PolicyEngine.Proofs.Results

/-!
The signatures of the core library. A function found there by its name answers plain operands with plain values, and
only with values of its declared type.
-/
namespace PolicyEngine
namespace Registry

/-! ## Functions by name -/

/-- A function answers operands with a value, wherever it is called, and leaves what surrounds the call as it is. -/
def Answers (r : Registry) (name : String) (args : List Term) (v : Term) : Prop :=
  ∃ b, r.get? name = some b ∧ ∀ context host, b.invoke context args host = (Operand.value v, host)

theorem Answers.unique {r : Registry} {name : String} {args : List Term} {v w : Term} (h : r.Answers name args v)
    (h' : r.Answers name args w) : v = w := by
  obtain ⟨b, hb, hv⟩ := h
  obtain ⟨b', hb', hw⟩ := h'
  obtain rfl : b = b' := Option.some.inj (hb.symm.trans hb')
  have hsame := (hv ⟨name, 0, 0, false⟩ {}).symm.trans (hw ⟨name, 0, 0, false⟩ {})
  exact Option.some.inj (Except.ok.inj (Prod.ext_iff.1 hsame).1)

/-- A function of the core library that looks at its operands only answers as it is run. -/
theorem answers_of_run {draw : Builtin.Draw} {name : String} {operands : List OperandType} {result : OperandType}
    {f : List Term → BuiltinResult} {args : List Term} {v : Term}
    (hfind : (families draw).reverse.find? (·.name == name) = some (.ofPure name operands result f))
    (hrun : f args = Operand.value v) : (core draw).Answers name args v := by
  refine ⟨.ofPure name operands result f, ?_, fun _ host => congrArg (·, host) hrun⟩
  rw [get?_core, hfind]

/-! ## Declared types -/

/-- A function can be called under the name at which it is found. -/
theorem callable_of_get? {r : Registry} {name : String} {b : Builtin} (h : r.get? name = some b) : r.Callable b := by
  have hname : b.name = name := eq_of_beq (List.find?_some (p := fun c : Builtin => c.name == name) h)
  rw [Callable, hname]
  exact h

/-- What a function of the core library answers to plain operands is a plain value of its declared type, wherever it is
called. -/
theorem core_answers_as_declared {draw : Builtin.Draw} {name : String} {b : Builtin}
    (hb : (core draw).get? name = some b) (context : BuiltinContext) {args : List Term} (host : Host)
    (hargs : ∀ t ∈ args, t.Plain) {v : Term} (h : (b.invoke context args host).1 = .ok (some v)) : v.Plain ∧ b.result.accepts v = true := by
  have hcallable := callable_of_get? hb
  exact ⟨Builtin.keeps_core Term.hereditary_plain hcallable context args host hargs _ h v rfl,
    Builtin.typed_core hcallable context args host _ h v rfl⟩

/-! ### The union of two objects -/

namespace Unions

def operands : List Term :=
  [.object [(.string "a", .object [(.string "b", .number 1)])], .object [(.string "a", .object [(.string "c", .null)])]]

def context : BuiltinContext := ⟨"object.union", 0, 0, false⟩

/-- What a function of the core library answers to these operands. -/
def answer? (name : String) : Option Term :=
  (core.get? name).bind fun b => (b.invoke context operands {}).1.toOption.join

theorem plain_operands : ∀ t ∈ operands, t.Plain := by
  intro t ht
  refine Term.ComprFree.plain (Term.comprFree_of_not_needsEval t ?_) ?_
  · exact (by decide +kernel : ∀ t ∈ operands, t.needsEval = false) t ht
  · exact (by decide +kernel : ∀ t ∈ operands, t.isGround = true) t ht

/-- Objects under the same key are united as well. -/
theorem core_answers_union : ∃ b v, core.get? "object.union" = some b ∧
    (b.invoke context operands {}).1 = .ok (some v) ∧
    (v == .object [(.string "a", .object [(.string "b", .number 1), (.string "c", .null)])]) = true ∧
    v.Plain ∧ b.result.accepts v = true := by
  obtain ⟨v, hanswer, hunited⟩ : ∃ v, answer? "object.union" = some v ∧
      (v == .object [(.string "a", .object [(.string "b", .number 1), (.string "c", .null)])]) = true :=
    (Option.any_eq_true _ _).1 (by decide +kernel)
  obtain ⟨b, hb, hv⟩ := Option.bind_eq_some_iff.1 hanswer
  have hok : (b.invoke context operands {}).1 = .ok (some v) :=
    Except.eq_ok_of_toOption (Option.join_eq_some_iff.1 hv)
  exact ⟨b, v, hb, hok, hunited, core_answers_as_declared hb context {} plain_operands hok⟩

end Unions
end Registry
end PolicyEngine
