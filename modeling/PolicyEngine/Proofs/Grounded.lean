import PolicyEngine.Proofs.Cutting

/-!
Documents are ground. Whatever the state in which a rule set is evaluated, only ground values are accepted, added to a
set or set as fields, so no variable is in the document that is found.
-/
namespace PolicyEngine

/-- What a search accumulates keeps a property, whatever the state. -/
abbrev Search.Keeps (A : α → Prop) (search : Search α) : Prop := search.Ensures (fun _ => True) A

/-- The results of a computation have a property, whatever the state. -/
abbrev Eval.Gives (p : β → Prop) (m : Eval β) : Prop := m.Ensures (fun _ => True) p

theorem Eval.gives_anything (m : Eval β) : m.Gives fun _ => True := fun _ _ => ⟨trivial, fun _ _ => trivial⟩

/-- A search that keeps a property, beside one that is over. -/
def Cut.keeping (A : α → Prop) : Cut α Unit where
  live _ _ := False
  winding _ _ := False
  ended a _ := A a
  ending := .error .cancelled

/-- What a plan accumulates keeps what the continuation keeps. -/
theorem Plan.keeps (env : Env) {κ : Type} (p : Plan κ) {A : α → Prop} {k : κ → Search α} (hk : ∀ x, (k x).Keeps A) :
    (p.run env k).Keeps A := by
  have hlawful : (Cut.keeping A).Lawful env := ⟨nofun, fun _ _ h => h.elim⟩
  have hfollows : ∀ x, (Cut.keeping A).Follows (k x) Search.exhausted := fun x =>
    ⟨fun _ _ _ h => h.elim, fun a _ s h => (hk x a s trivial h).2⟩
  exact fun found s _ h => ⟨trivial, (p.follows hlawful hfollows).stays found () s h⟩

theorem Search.Keeps.extending {A : α → Prop} {k : Search α} (f : Bindings → Option Bindings) (hk : k.Keeps A) :
    (Search.extending f k).Keeps A := by
  intro found s _ hA
  rw [Search.extending]
  cases f s.bindings with
  | none => exact ⟨trivial, hA⟩
  | some b => exact hk found _ trivial hA

/-- A value, if there is one, is ground. -/
abbrev GroundIfSome : Option Term → Prop := IfSome fun t => t.isGround = true

namespace Env

variable (env : Env) (rules : RuleSemantics) {A : α → Prop}

theorem keeps_evalTerm (t : Term) {k : Term → Search α} (hk : ∀ v, (k v).Keeps A) :
    (env.evalTerm rules t k).Keeps A := by
  obtain ⟨plan, hplan, -⟩ := (Plan.ofTerms (fun _ => True) env rules t).1
  rw [show env.evalTerm rules t k = plan.run env k from hplan α k]
  exact plan.keeps env hk

theorem keeps_evalBody (body : Body) {k : Search α} (hk : k.Keeps A) : (env.evalBody rules body k).Keeps A := by
  obtain ⟨plan, hplan, -⟩ := Plan.ofBody (fun _ => True) env rules body
  rw [show env.evalBody rules body k = plan.run env fun _ => k from hplan α fun _ => k]
  exact plan.keeps env fun _ => hk

/-- Whatever the state and the text of rules, they derive ground values. -/
theorem upholds_ground :
    env.Upholds rules (fun _ => True) (fun _ => True) (fun _ => True) (fun _ => True) fun t => t.isGround = true where
  hereditary := Term.hereditary_isGround
  emit _ _ _ := Eval.gives_anything _
  resolve _ := Eval.gives_anything _
  plugs _ _ _ _ hground := hground
  params _ _ hk := Search.Keeps.extending _ hk
  body _ hk := env.keeps_evalBody rules _ hk
  key _ _ hk := env.keeps_evalTerm rules _ fun v => hk v trivial
  value _ hk := env.keeps_evalTerm rules _ fun v => hk v trivial

/-- The document of a rule set is ground. -/
theorem gives_evalDocument (rs : RuleSet) : (env.evalDocument rules rs).Gives GroundIfSome :=
  (env.upholds_ground rules).ensures_evalDocument (fun _ _ _ _ => trivial) fun _ _ _ _ => trivial

theorem gives_entering (rs : RuleSet) {m : Eval β} {p : β → Prop} (hm : m.Gives p) : (env.entering rs m).Gives p := by
  refine fun s _ => ⟨trivial, fun b hb => ?_⟩
  rw [Env.run_entering] at hb
  split at hb
  · cases hb
  · split at hb
    · cases hb
    · exact (hm _ trivial).2 b hb

end Env
end PolicyEngine
