import PolicyEngine.Proofs.Declarations
import PolicyEngine.Proofs.Layout

/-!
Which modules compile. Rules are added one by one and errors are met on the way, and of the paths only neighbours are
compared; what it comes to does not depend on that. Modules compile if the rules for each path agree and no path of a
rule lies below another, and then the policy has the rule sets that were declared and finds them by their paths.
-/
namespace PolicyEngine

namespace Module

variable {modules : List Module}

/-- Rules that can define documents and functions together. -/
structure Consistent (modules : List Module) : Prop where
  kind : ∀ d ∈ declared modules, ∀ d' ∈ declared modules, d.1 = d'.1 → d.2.first.head.kind = d'.2.first.head.kind
  arity : ∀ d ∈ declared modules, ∀ d' ∈ declared modules, d.1 = d'.1 → d.2.first.head.kind = .function →
    d.2.first.head.params.length = d'.2.first.head.params.length
  default : ∀ d ∈ declared modules, d.2.first.isDefault = true → d.2.first.head.kind = .complete
  single : ∀ path, ((declared modules).filter fun d => d.1 == path && d.2.first.isDefault).length ≤ 1
  separate : ∀ d ∈ declared modules, ∀ d' ∈ declared modules, d.1 <+: d'.1 → d.1 = d'.1

end Module

namespace Policy

variable {modules : List Module} {policy : Policy} {declared : List (DataPath × Rule)} {sets : List RuleSet}
  {path : DataPath} {rule : Rule} {rs : RuleSet}

/-! ## Rules that agree -/

theorem mem_rulesAt : rule ∈ rulesAt path declared ↔ (path, rule) ∈ declared := by
  simp only [rulesAt, List.mem_map, List.mem_filter, beq_iff_eq, Prod.exists, exists_eq_right]

theorem length_defaults (path : DataPath) (declared : List (DataPath × Rule)) :
    ((rulesAt path declared).filter (·.first.isDefault)).length =
      (declared.filter fun d => d.1 == path && d.2.first.isDefault).length := by
  rw [rulesAt, List.filter_map, List.length_map, List.filter_filter]
  simp only [Function.comp_apply, Bool.and_comm]

/-- The rules for each path agree if rules with the same path do. -/
theorem agree_of_consistent (h : Module.Consistent modules) (path : DataPath) :
    Rule.Agree (rulesAt path (Module.declared modules)) := by
  refine ⟨fun r hr r' hr' => ?_, fun r hr r' hr' => ?_, fun r hr => ?_, ?_⟩
  · exact h.kind _ (mem_rulesAt.1 hr) _ (mem_rulesAt.1 hr') rfl
  · exact h.arity _ (mem_rulesAt.1 hr) _ (mem_rulesAt.1 hr') rfl
  · exact h.default _ (mem_rulesAt.1 hr)
  · rw [length_defaults]
    exact h.single path

/-! ## Rule sets -/

/-- A rule set of a policy is the one of the rules that are declared for its path. -/
theorem Gathers.eq_of_mem (h : Gathers declared sets) (hrs : rs ∈ sets) : gathered? rs.path declared = some rs := by
  have hsome : ((⟨sets⟩ : Policy).ruleSet? rs.path).isSome = true := ruleSet?_isSome hrs
  obtain ⟨found, hfound⟩ := Option.isSome_iff_exists.1 hsome
  obtain ⟨hmem, hpath⟩ := mem_of_ruleSet? hfound
  rw [h.ordered.distinct rs hrs found hmem hpath] at hfound
  rw [← h.ruleSet?, hfound]

/-- There is a rule set for every path that a rule is declared for. -/
theorem Gathers.exists_of_mem (h : Gathers declared sets) (hd : (path, rule) ∈ declared) :
    ∃ rs ∈ sets, rs.path = path := by
  have hsome : (gathered? path declared).isSome = true := by
    rw [gathered?, Option.isSome_map, List.isSome_head?]
    exact List.ne_nil_of_mem (mem_rulesAt.2 hd)
  rw [← h.ruleSet?] at hsome
  obtain ⟨rs, hrs⟩ := Option.isSome_iff_exists.1 hsome
  exact ⟨rs, mem_of_ruleSet? hrs⟩

theorem Gathers.declared_of_mem (h : Gathers declared sets) (hrs : rs ∈ sets) : ∃ rule, (rs.path, rule) ∈ declared := by
  have hgathered := h.eq_of_mem hrs
  rw [gathered?, Option.map_eq_some_iff] at hgathered
  obtain ⟨first, hfirst, _⟩ := hgathered
  exact ⟨first, mem_rulesAt.1 (List.mem_of_head? hfirst)⟩

theorem Gathers.rules_of_mem (h : Gathers declared sets) (hrs : rs ∈ sets) :
    rs.rules = (rulesAt rs.path declared).filter (!·.first.isDefault) := by
  have hgathered := h.eq_of_mem hrs
  rw [gathered?, Option.map_eq_some_iff] at hgathered
  obtain ⟨first, _, heq⟩ := hgathered
  exact (congrArg RuleSet.rules heq).symm

theorem Gathers.kind_of_mem (h : Gathers declared sets) (hrs : rs ∈ sets) (hrule : rule ∈ rs.rules) :
    rule.first.head.kind = rs.kind := by
  have hgathered := h.eq_of_mem hrs
  rw [gathered?, Option.map_eq_some_iff] at hgathered
  obtain ⟨first, hfirst, heq⟩ := hgathered
  rw [h.rules_of_mem hrs] at hrule
  have hkind := (h.agree rs.path).kind rule (List.mem_of_mem_filter hrule) first (List.mem_of_head? hfirst)
  exact hkind.trans (congrArg RuleSet.kind heq)

/-- Where no rule set lies below another, no two neighbours do. -/
theorem checkPaths_of_separate (hord : Ordered sets) (hsep : Separate sets) : checkPaths sets = .ok () := by
  induction sets with
  | nil => rfl
  | cons first rest ih =>
    obtain ⟨hfirst, hrest⟩ := List.pairwise_cons.1 hord
    cases rest with
    | nil => rfl
    | cons second rest =>
      have hapart : ¬ (first.path.isPrefixOf second.path) = true := by
        rw [List.isPrefixOf_iff_prefix]
        intro hbegins
        have hsame := hsep first List.mem_cons_self second (by simp) hbegins
        exact ne_of_compare (hfirst second List.mem_cons_self) (by rw [hsame])
      rw [checkPaths, if_neg hapart]
      exact ih hrest fun rs hrs rs' hrs' => hsep rs (List.mem_cons_of_mem _ hrs) rs' (List.mem_cons_of_mem _ hrs')

theorem Gathers.separate_iff (h : Gathers declared sets) :
    Separate sets ↔ ∀ d ∈ declared, ∀ d' ∈ declared, d.1 <+: d'.1 → d.1 = d'.1 := by
  constructor
  · intro hsep d hd d' hd' hbegins
    obtain ⟨rs, hrs, hpath⟩ := h.exists_of_mem hd
    obtain ⟨rs', hrs', hpath'⟩ := h.exists_of_mem hd'
    rw [← hpath, ← hpath'] at hbegins ⊢
    rw [hsep rs hrs rs' hrs' hbegins]
  · intro hdeclared rs hrs rs' hrs' hbegins
    obtain ⟨rule, hrule⟩ := h.declared_of_mem hrs
    obtain ⟨rule', hrule'⟩ := h.declared_of_mem hrs'
    exact h.ordered.distinct rs hrs rs' hrs' (hdeclared _ hrule _ hrule' hbegins).symm

/-! ## Compilation -/

theorem consistent_of_compile (h : compile modules = .ok policy) : Module.Consistent modules := by
  obtain ⟨_, hgathers, hcheck⟩ := compile_eq_ok_iff.1 h
  have hsame : ∀ {d d' : DataPath × Rule}, d' ∈ Module.declared modules → d.1 = d'.1 →
      d'.2 ∈ rulesAt d.1 (Module.declared modules) :=
    fun hd' hpath => mem_rulesAt.2 (hpath ▸ hd')
  refine ⟨fun d hd d' hd' hpath => ?_, fun d hd d' hd' hpath => ?_, fun d hd => ?_, fun path => ?_, ?_⟩
  · exact (hgathers.agree d.1).kind _ (mem_rulesAt.2 hd) _ (hsame hd' hpath)
  · exact (hgathers.agree d.1).arity _ (mem_rulesAt.2 hd) _ (hsame hd' hpath)
  · exact (hgathers.agree d.1).default _ (mem_rulesAt.2 hd)
  · rw [← length_defaults]
    exact (hgathers.agree path).single
  · exact hgathers.separate_iff.1 (separate_of_checkPaths hgathers.ordered hcheck)

theorem compile_of_consistent (hnormal : ∀ d ∈ Module.declarations modules, (d.2.normalize d.1).isOk = true)
    (h : Module.Consistent modules) : ∃ policy, compile modules = .ok policy := by
  obtain ⟨sets, hfold⟩ := foldlM_of_agree (agree_of_consistent h)
  have hgathers := gathers_of_foldlM hfold
  exact ⟨⟨sets⟩, compile_eq_ok_iff.2
    ⟨hnormal, hgathers, checkPaths_of_separate hgathers.ordered (hgathers.separate_iff.2 h.separate)⟩⟩

/-- A policy holds what modules declare: a rule set for each path, with the rules that are not defaults in the order of
their declaration, and its scans find exactly the rule sets that they are about. -/
structure Holds (modules : List Module) (policy : Policy) : Prop where
  paths : ∀ path, (∃ rs ∈ policy.ruleSets, rs.path = path) ↔ ∃ rule, (path, rule) ∈ Module.declared modules
  rules : ∀ rs ∈ policy.ruleSets,
    rs.rules = (rulesAt rs.path (Module.declared modules)).filter (!·.first.isDefault)
  below : ∀ path rs, rs ∈ policy.below path ↔ rs ∈ policy.ruleSets ∧ path <+: rs.path ∧ rs.path ≠ path
  order : ∀ path, (policy.below path).Pairwise fun a b => compare a.path b.path = .lt
  hasBelow : ∀ path, policy.hasBelow path = true ↔ policy.below path ≠ []
  covering : ∀ path rs, policy.covering? path = some rs ↔ rs ∈ policy.ruleSets ∧ rs.path <+: path

theorem holds_of_compile (h : compile modules = .ok policy) : Holds modules policy := by
  have hgathers := (compile_eq_ok_iff.1 h).2.1
  have hord := hgathers.ordered
  have hsep := separate_of_compile h
  refine ⟨fun path => ?_, fun rs hrs => hgathers.rules_of_mem hrs, fun path rs => mem_below_iff hord, fun path => ?_,
    fun path => ?_, fun path rs => ?_⟩
  · constructor
    · rintro ⟨rs, hrs, rfl⟩
      exact hgathers.declared_of_mem hrs
    · rintro ⟨rule, hrule⟩
      exact hgathers.exists_of_mem hrule
  · rw [below_eq_filter hord]
    exact List.Pairwise.filter _ hord
  · rw [hasBelow_eq, Bool.not_eq_true', List.isEmpty_eq_false_iff]
  · exact ⟨mem_of_covering?, fun ⟨hrs, hbegins⟩ => covering?_eq_some hsep hrs hbegins⟩

/-- Modules with normal heads compile exactly if they are consistent, and the policy holds what they declare. -/
theorem compile_iff_consistent (hnormal : ∀ d ∈ Module.declarations modules, (d.2.normalize d.1).isOk = true) :
    ((∃ policy, compile modules = .ok policy) ↔ Module.Consistent modules) ∧
      ∀ policy, compile modules = .ok policy → Holds modules policy :=
  ⟨⟨fun ⟨_, h⟩ => consistent_of_compile h, compile_of_consistent hnormal⟩, fun _ => holds_of_compile⟩

end Policy

/-! ### Two packages and a third between them -/

namespace Offices

def headed (name : String) : Head := { name := .var name, keys := [] }
def complete (name : String) (value : Number) : Rule := ⟨⟨false, { headed name with value := some (.number value) }, []⟩, []⟩
def fallback (name : String) : Rule := ⟨⟨true, { headed name with value := some (.bool false) }, []⟩, []⟩
def function (name : String) : Rule := ⟨⟨false, { headed name with params := [.var "x"] }, []⟩, []⟩
def member (name : String) : Rule := ⟨⟨false, { headed name with key := some (.string "m") }, []⟩, []⟩

/-- The first package is met again after the second, which lies below it. -/
def modules : List Module :=
  [⟨["org"], [complete "open" 1, fallback "open"]⟩, ⟨["org", "hall"], [member "guests", function "room"]⟩,
    ⟨["orgs"], [complete "open" 3]⟩, ⟨["org"], [complete "open" 2]⟩]

def policy : Policy := (Policy.compile modules).toOption.getD {}

theorem compile_modules : Policy.compile modules = .ok policy := Except.eq_ok_of_isOk (by decide +kernel) {}

theorem compile_offices :
    (∀ d ∈ Module.declarations modules, (d.2.normalize d.1).isOk = true) ∧ Module.Consistent modules ∧
      Policy.Holds modules policy ∧
      (policy.below ["org"]).map RuleSet.path = [["org", "hall", "guests"], ["org", "hall", "room"], ["org", "open"]] := by
  have hnormal : ∀ d ∈ Module.declarations modules, (d.2.normalize d.1).isOk = true := by decide +kernel
  obtain ⟨hconsistent, hholds⟩ := Policy.compile_iff_consistent hnormal
  exact ⟨hnormal, hconsistent.1 ⟨policy, compile_modules⟩, hholds policy compile_modules, by decide +kernel⟩

end Offices
end PolicyEngine
