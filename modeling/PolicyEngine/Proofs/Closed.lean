import PolicyEngine.Proofs.Plans
import PolicyEngine.Proofs.Queries
import PolicyEngine.Proofs.Results

/-!
Closed values. Over plain documents, and where no comprehension stands in a pattern, evaluation works with plain values
only: the documents of rules and the values of functions are plain, by induction on how deep rules are nested, and so
are the documents remembered, the operands of calls, the documents asked for and the values of solutions.

A pattern that is a comprehension is unified as it is written, and the variable on the other side is given the
comprehension for its value. Such patterns are what the results exclude.
-/
namespace PolicyEngine

variable {seen : Host → Prop}

/-! ## Rules -/

namespace Env.Sound

open Plan (ofTerms ofBody)

variable {env : Env} {rules : RuleSemantics}

theorem yields_resolve (h : env.Sound seen rules) (reference : Term) :
    (env.resolve rules reference).Yields seen fun _ => True := by
  simp only [Env.resolve]
  split
  · exact .pure trivial
  · next chain _ =>
    split
    · exact .get fun _ _ => .pure trivial
    · exact (h.clean.yields_document h.plain chain.keys).bind fun _ _ => .pure trivial
    · exact .pure trivial

theorem tidy_evalTerm (h : env.Sound seen rules) {t : Term} (ht : t.Fit) {α : Type} {A : α → Prop}
    {k : Term → Search α} (hk : ∀ v : Term, v.ComprFree → (k v).Tidy seen A) : (env.evalTerm rules t k).Tidy seen A :=
  (ofTerms seen env rules t).1.tidy ⟨h, ht⟩ hk

theorem tidy_evalBody (h : env.Sound seen rules) {body : Body} (hb : Expr.FitBody body) {α : Type} {A : α → Prop}
    {k : Search α} (hk : k.Tidy seen A) : (env.evalBody rules body k).Tidy seen A :=
  (ofBody seen env rules body).tidy ⟨h, hb⟩ fun _ _ => hk

/-- Rules keep states clean, and from plain operands they derive plain values. -/
theorem upholds (h : env.Sound seen rules) :
    env.Upholds rules (State.Clean seen) Clause.Fit Term.Plain Term.ComprFree Term.Plain where
  hereditary := Term.hereditary_plain
  emit := h.clean.yields_emit
  resolve := h.yields_resolve
  plugs := State.Clean.plugs
  params hc ha hk := Search.Tidy.extending
    (Bindings.extends_unifyAll Term.pervasive_comprFree hc.params fun t ht => (ha t ht).comprFree) hk
  body hc hk := h.tidy_evalBody hc.body hk
  key hc hkey hk := h.tidy_evalTerm (hc.key _ hkey) hk
  value hc hk := h.tidy_evalTerm hc.value hk

end Env.Sound

/-! ## Nesting -/

theorem Env.yields_entering (env : Env) (rs : RuleSet) {m : Eval β} {p : β → Prop} (hm : m.Yields seen p) :
    (env.entering rs m).Yields seen p := by
  intro s hs
  simp only [entering, Eval.run_mk]
  split
  · exact ⟨hs, nofun⟩
  · split
    · exact ⟨hs, nofun⟩
    · obtain ⟨hclean, hp⟩ := hm { s with
        bindings := {}, inProgress := s.inProgress ++ [rs.name], depth := s.depth + 1 }
        ⟨Bindings.holds_empty, hs.scope, hs.memo, hs.answers, hs.host⟩
      exact ⟨⟨hs.bindings, hclean.scope, hclean.memo, hclean.answers, hclean.host⟩, hp⟩

/-- What is computed for a rule set is remembered. -/
theorem RuleSet.yields_recalling (rs : RuleSet) {m : Eval (Option Term)} (hm : m.Yields seen (IfSome Term.Plain)) :
    (rs.recalling m).Yields seen (IfSome Term.Plain) := by
  simp only [recalling]
  split
  · exact .pure ifSome_none
  · refine .get fun s hs => ?_
    split
    · next value hvalue => exact .pure (hs.remembered? hvalue)
    · refine hm.bind fun value hvalue => ?_
      exact Eval.Ensures.bind (p := fun _ => True) (fun s hs => ⟨hs.remember rs.path hvalue, fun _ _ => trivial⟩)
        fun _ _ => .pure hvalue

/-- No comprehension stands in a pattern of a policy. -/
def Policy.Fit (policy : Policy) : Prop := ∀ rs ∈ policy.ruleSets, rs.Fit

namespace Env.Clean

variable {env : Env}

/-- However deep rules are nested, their documents and values are plain. -/
theorem plain_rulesTo (h : env.Clean seen) (hfit : env.policy.Fit) (n : Nat) :
    (env.rulesTo n).Plain seen env.policy := by
  induction n with
  | zero => exact ⟨fun _ _ => .throw _, fun _ _ _ _ => .throw _⟩
  | succ n ih =>
    have hsound : env.Sound seen (env.rulesTo n) := ⟨h, ih⟩
    refine ⟨fun rs hrs => ?_, fun rs hrs args ha => ?_⟩
    · exact rs.yields_recalling (env.yields_entering rs
        (hsound.upholds.ensures_evalDocument (hfit rs hrs).rules (hfit rs hrs).default))
    · exact env.yields_entering rs (hsound.upholds.ensures_evalFunction (hfit rs hrs).rules ha)

theorem sound (h : env.Clean seen) (hfit : env.policy.Fit) : env.Sound seen env.rules := ⟨h, h.plain_rulesTo hfit _⟩

/-! ## Queries -/

/-- The value of a variable is reported if it is ground, so it is plain. -/
theorem plain_solution {b : Bindings} (hb : b.Holds Term.ComprFree) (names : List String) :
    ∀ v ∈ (Query.solution names b).bindings, v.2.Plain := by
  intro v hv
  obtain ⟨name, -, hname⟩ := List.mem_filterMap.1 hv
  dsimp only at hname
  split at hname
  · next hground =>
    cases hname
    exact (hb.plug Term.pervasive_comprFree .var).plain hground
  · cases hname

/-- The caller of a query is handed plain values, whatever it makes of them. -/
theorem tidy_evalQuery (h : env.Clean seen) (hfit : env.policy.Fit) {query : Body} (hquery : Expr.FitBody query)
    {α : Type} {A : α → Prop} {deliver : Solution → α → Reply × α}
    (hdeliver : ∀ solution found, (∀ v ∈ solution.bindings, v.2.Plain) → A found → A (deliver solution found).2) :
    (env.evalQuery query deliver).Tidy seen A := by
  refine .after (p := fun _ => True) ?_ fun depth _ => ?_
  · exact .get fun s _ => (h.yields_emit .enter s.depth _).bind fun _ _ => .pure trivial
  · refine (h.sound hfit).tidy_evalBody hquery (.after (h.yields_emit .exit depth _) fun _ _ found s hs hA => ?_)
    exact ⟨⟨hs.bindings, hs.scope, hs.memo, hs.answers, hs.host⟩,
      hdeliver _ _ (plain_solution hs.bindings _) hA⟩

theorem yields_evalPath (h : env.Clean seen) (hfit : env.policy.Fit) (path : DataPath) :
    (env.evalPath path).Yields seen (IfSome Term.Plain) :=
  h.yields_document (h.sound hfit).plain path

end Env.Clean

/-! ## Engines -/

/-- The input and the stored documents are plain, and built-ins answer plain operands with plain values. -/
structure Engine.Plain (e : Engine) : Prop where
  root : e.store.root.Plain
  input : IfSome Term.Plain e.input
  builtins : ∀ b, e.registry.Callable b → b.Keeps Term.Plain

/-- With the core library only the documents matter. -/
theorem Engine.plain_of_core {e : Engine} {draw : Builtin.Draw} (hcore : e.registry = Registry.core draw)
    (hroot : e.store.root.Plain) (hinput : IfSome Term.Plain e.input) : e.Plain :=
  ⟨hroot, hinput, fun _ hb => Builtin.keeps_core Term.hereditary_plain (hcore ▸ hb)⟩

namespace Engine.Plain

variable {e : Engine} {policy : Policy}

/-- An evaluation starts in a clean state, whatever may be left with the host. -/
theorem clean_start (h : e.Plain) : e.start.Clean fun _ => True :=
  ⟨Bindings.holds_empty, ⟨h.input, nofun, nofun⟩, nofun, nofun, trivial⟩

theorem clean_env (h : e.Plain) (policy : Policy) :
    ({ e with store := e.store.beginRead.2 }.env policy e.store.beginRead.1).Clean fun _ => True :=
  ⟨h.root, fun b hb context args host hargs _ =>
    ⟨trivial, fun v hv => h.builtins b hb context args host hargs _ hv v rfl⟩, fun _ _ _ => trivial⟩

variable (h : e.Plain) (hcompiled : e.Compiled) (hpolicy : Policy.compile e.modules = .ok policy) (hfit : policy.Fit)

include h hcompiled hpolicy hfit

/-- The values of the solutions of a query are plain. -/
theorem returns_evalQuery {query : Body} (hquery : Expr.FitBody query) :
    Returns (fun solutions => ∀ solution ∈ solutions, ∀ v ∈ solution.bindings, v.2.Plain)
      (e.evalQuery query).1.result := by
  have hresult : (e.evalQuery query).1.result =
      let result := (e.run none (fun err => (.error err, #[])) fun env s =>
        let r := env.evalQuery query (fun solution found => ({}, found.push solution)) #[] s
        ((r.outcome.map fun _ => (), r.found), r.state)).1.result
      result.1.map fun _ => result.2.toList := rfl
  rw [hresult, e.run_compiled hcompiled hpolicy]
  set env := { e with store := e.store.beginRead.2 }.env policy e.store.beginRead.1
  have htidy : (env.evalQuery query fun solution found => ({}, found.push solution)).Tidy (fun _ => True)
      fun found : Array Solution => ∀ solution ∈ found.toList, ∀ v ∈ solution.bindings, v.2.Plain := by
    refine (h.clean_env policy).tidy_evalQuery hfit hquery fun solution found hsolution hfound => ?_
    rw [Array.toList_push]
    exact List.forall_mem_append.2 ⟨hfound, List.forall_mem_singleton.2 hsolution⟩
  intro solutions hsolutions
  obtain ⟨_, _, rfl⟩ := Except.map_eq_ok hsolutions
  exact (htidy #[] _ h.clean_start nofun).2

/-- The document with a name is plain. -/
theorem returns_evalRule (name : String) : Returns (IfSome Term.Plain) (e.evalRule name).1.result := by
  rw [evalRule]
  cases DataPath.parse? name with
  | none => exact nofun
  | some path =>
    dsimp only
    rw [e.run_compiled hcompiled hpolicy]
    exact (((h.clean_env policy).yields_evalPath hfit path) _ h.clean_start).2

end Engine.Plain

namespace Unmatched

/-- `[z | z = 1]` -/
def comprehension : Term := .arrayCompr (.var "z") [.ofKind (.term (.call (.ref (.var "eq") []) [.var "z", .number 1]))]

/-- `some [[z | z = 1]] in [[y]]` -/
def query : Body :=
  [.ofKind (.someDecl [.call (.ref (.var "internal") [.string "member_2"])
    [.array [comprehension], .array [.array [.var "y"]]]])]

/-- A comprehension in the pattern of a generator becomes the value of the variable that it meets. -/
example : ((({ clock := { step := 1 } } : Engine).evalQuery query).1.result.toOption.map
    (·.map Solution.bindings) == some [[("y", comprehension)]]) = true := by decide +kernel

end Unmatched
end PolicyEngine
