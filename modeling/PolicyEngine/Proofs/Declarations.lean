import Mathlib.Data.List.Forall2
import Mathlib.Data.List.Induction
import Mathlib.Data.List.Perm.Basic
import PolicyEngine.Proofs.Compiled

/-!
What modules declare and what a policy gathers of it. The rule set at a path depends on nothing but the rules that are
declared for that path, and whether rules agree does not depend on their order. So modules that declare the rules of one
document in another order compile as well, and to a policy that differs in the order of those rules.
-/
namespace PolicyEngine

/-! ## Rules of one document -/

namespace Rule

/-- Rules that can define one document or function together. -/
structure Agree (ruleList : List Rule) : Prop where
  kind : ∀ r ∈ ruleList, ∀ r' ∈ ruleList, r.first.head.kind = r'.first.head.kind
  arity : ∀ r ∈ ruleList, ∀ r' ∈ ruleList, r.first.head.kind = .function →
    r.first.head.params.length = r'.first.head.params.length
  default : ∀ r ∈ ruleList, r.first.isDefault = true → r.first.head.kind = .complete
  single : (ruleList.filter (·.first.isDefault)).length ≤ 1

variable {ruleList ruleList' rest : List Rule} {rule : Rule}

theorem Agree.perm (h : Agree ruleList) (hperm : ruleList'.Perm ruleList) : Agree ruleList' := by
  refine ⟨fun r hr r' hr' => ?_, fun r hr r' hr' => ?_, fun r hr => h.default r (hperm.mem_iff.1 hr), ?_⟩
  · exact h.kind r (hperm.mem_iff.1 hr) r' (hperm.mem_iff.1 hr')
  · exact h.arity r (hperm.mem_iff.1 hr) r' (hperm.mem_iff.1 hr')
  · rw [(hperm.filter _).length_eq]
    exact h.single

theorem Agree.of_append (h : Agree (ruleList ++ rest)) : Agree ruleList := by
  refine ⟨fun r hr r' hr' => ?_, fun r hr r' hr' => ?_, fun r hr => ?_, ?_⟩
  · exact h.kind r (List.mem_append_left _ hr) r' (List.mem_append_left _ hr')
  · exact h.arity r (List.mem_append_left _ hr) r' (List.mem_append_left _ hr')
  · exact h.default r (List.mem_append_left _ hr)
  · have hsingle := h.single
    rw [List.filter_append, List.length_append] at hsingle
    omega

/-- Before a default there is no other. -/
theorem Agree.no_default (h : Agree (ruleList ++ [rule])) (hdefault : rule.first.isDefault = true) :
    ruleList.filter (·.first.isDefault) = [] := by
  have hsingle := h.single
  rw [List.filter_append, List.length_append, List.filter_singleton, hdefault, Bool.cond_true,
    List.length_singleton] at hsingle
  exact List.eq_nil_of_length_eq_zero (by omega)

end Rule

namespace RuleSet

/-- The rule set of rules of one kind. -/
def ofRules (path : DataPath) (kind : DocKind) (ruleList : List Rule) : RuleSet where
  path := path
  kind := kind
  rules := ruleList.filter (!·.first.isDefault)
  default := (ruleList.filter (·.first.isDefault)).head?

variable {path : DataPath} {kind : DocKind} {ruleList : List Rule} {rule : Rule} {rs : RuleSet}

/-- A rule that agrees with the rules that are there is added. -/
theorem add_of_agree (hkind : ∀ r ∈ ruleList ++ [rule], r.first.head.kind = kind)
    (hagree : Rule.Agree (ruleList ++ [rule])) :
    add rule (ofRules path kind ruleList) = .ok (ofRules path kind (ruleList ++ [rule])) := by
  have hrule : rule.first.head.kind = kind := hkind rule (by simp)
  have harity : (decide (kind = .function) && (ofRules path kind ruleList).rules.head?.any
      (·.first.head.params.length ≠ rule.first.head.params.length)) = false := by
    rw [Bool.and_eq_false_imp, decide_eq_true_eq, ← Bool.not_eq_true, Option.any_eq_true]
    rintro hfunction ⟨r, hr, hne⟩
    have hmem : r ∈ ruleList := (List.mem_filter.1 (List.mem_of_head? hr)).1
    have hsame := hagree.arity rule (by simp) r (List.mem_append_left _ hmem) (hrule.trans hfunction)
    simp [hsame] at hne
  simp only [add, hrule, harity]
  cases hdefault : rule.first.isDefault with
  | false => simp [ofRules, hdefault]
  | true =>
    have hcomplete : kind = .complete := hrule.symm.trans (hagree.default rule (by simp) hdefault)
    have hnone := hagree.no_default hdefault
    simp [ofRules, hdefault, hnone, hcomplete]

/-- A rule that was added agrees with the rules that were there. -/
theorem agree_of_add (hkind : ∀ r ∈ ruleList, r.first.head.kind = kind) (hagree : Rule.Agree ruleList)
    (h : add rule (ofRules path kind ruleList) = .ok rs) :
    rule.first.head.kind = kind ∧ Rule.Agree (ruleList ++ [rule]) := by
  simp only [add] at h
  split at h
  · cases h
  next hsame =>
  have hsame : rule.first.head.kind = kind := by simpa [ofRules, eq_comm] using hsame
  rw [hsame] at h
  split at h
  · cases h
  next harity =>
  -- functions have no defaults, so the first rule is the one whose parameters are compared
  have hparams : ∀ r ∈ ruleList, kind = .function → r.first.head.params.length = rule.first.head.params.length := by
    intro r hr hfunction
    have hrules : ruleList.filter (!·.first.isDefault) = ruleList := by
      refine List.filter_eq_self.2 fun r' hr' => ?_
      rw [Bool.not_eq_true', Bool.eq_false_iff]
      intro hdefault
      have hcomplete := (hkind r' hr').symm.trans (hagree.default r' hr' hdefault)
      rw [hfunction] at hcomplete
      cases hcomplete
    cases ruleList with
    | nil => cases hr
    | cons r₀ rest =>
      have hfirst : r₀.first.head.params.length = rule.first.head.params.length := by
        simpa [ofRules, hrules, hfunction] using harity
      exact (hagree.arity r hr r₀ List.mem_cons_self ((hkind r hr).trans hfunction)).trans hfirst
  have hdefault : rule.first.isDefault = true →
      kind = .complete ∧ ruleList.filter (·.first.isDefault) = [] := by
    intro hdefault
    rw [if_pos hdefault] at h
    split at h
    · cases h
    next hcomplete =>
    split at h
    · cases h
    next hnone =>
    exact ⟨by simpa using hcomplete, by simpa [ofRules] using hnone⟩
  refine ⟨hsame, ?_, ?_, ?_, ?_⟩
  · have hall : ∀ r ∈ ruleList ++ [rule], r.first.head.kind = kind := by
      simpa [or_imp, forall_and] using ⟨hkind, hsame⟩
    exact fun r hr r' hr' => (hall r hr).trans (hall r' hr').symm
  · intro r hr r' hr' hfunction
    rw [List.mem_append, List.mem_singleton] at hr hr'
    rcases hr with hr | rfl <;> rcases hr' with hr' | rfl
    · exact hagree.arity r hr r' hr' hfunction
    · exact hparams r hr ((hkind r hr).symm.trans hfunction)
    · exact (hparams r' hr' (hsame.symm.trans hfunction)).symm
    · rfl
  · intro r hr hrdefault
    rw [List.mem_append, List.mem_singleton] at hr
    rcases hr with hr | rfl
    · exact hagree.default r hr hrdefault
    · exact hsame.trans (hdefault hrdefault).1
  · rw [List.filter_append, List.length_append, List.filter_singleton]
    cases hrdefault : rule.first.isDefault with
    | false => simpa using hagree.single
    | true => simp [(hdefault hrdefault).2]

end RuleSet

/-! ## Rule sets in order -/

namespace Policy

variable {path : DataPath} {rule : Rule} {rs : RuleSet} {sets sets' : List RuleSet}

theorem ruleSet?_cons (path : DataPath) (first : RuleSet) (rest : List RuleSet) :
    ruleSet? path ⟨first :: rest⟩ = if first.path = path then some first else ruleSet? path ⟨rest⟩ := by
  rw [ruleSet?, List.find?_cons]
  by_cases h : first.path = path
  · rw [if_pos h, h, beq_self_eq_true]
  · rw [if_neg h, beq_eq_false_iff_ne.2 h]
    rfl

theorem mem_of_ruleSet? {policy : Policy} (h : policy.ruleSet? path = some rs) :
    rs ∈ policy.ruleSets ∧ rs.path = path := by
  obtain ⟨hpath, _⟩ := List.find?_eq_some_iff_append.1 h
  exact ⟨List.mem_of_find?_eq_some h, beq_iff_eq.1 hpath⟩

theorem ruleSet?_eq_none_of_lt (h : ∀ rs ∈ sets, compare path rs.path = .lt) : ruleSet? path ⟨sets⟩ = none := by
  rw [ruleSet?, List.find?_eq_none]
  intro rs hrs hpath
  exact ne_of_compare (h rs hrs) (beq_iff_eq.1 hpath).symm

/-- Before the first path there is nothing. -/
theorem Ordered.ruleSet?_before {first : RuleSet} {rest : List RuleSet} (h : Ordered (first :: rest))
    (hlt : compare path first.path = .lt) : ruleSet? path ⟨first :: rest⟩ = none := by
  refine ruleSet?_eq_none_of_lt (List.forall_mem_cons.2 ⟨hlt, fun rs hrs => ?_⟩)
  exact Std.TransCmp.lt_trans hlt ((List.pairwise_cons.1 h).1 rs hrs)

/-- Rule sets in order that belong to others path by path belong to them one by one. -/
theorem forall₂_of_ordered {R : RuleSet → RuleSet → Prop} (hord : Ordered sets) (hord' : Ordered sets')
    (h : ∀ path, Option.Rel R (ruleSet? path ⟨sets⟩) (ruleSet? path ⟨sets'⟩)) : List.Forall₂ R sets sets' := by
  induction sets generalizing sets' with
  | nil =>
    cases sets' with
    | nil => exact .nil
    | cons first' rest' =>
      have hfirst := h first'.path
      rw [ruleSet?_cons, if_pos rfl] at hfirst
      cases hfirst
  | cons first rest ih =>
    cases sets' with
    | nil =>
      have hfirst := h first.path
      rw [ruleSet?_cons, if_pos rfl] at hfirst
      cases hfirst
    | cons first' rest' =>
      have hfirst := h first.path
      have hfirst' := h first'.path
      rw [ruleSet?_cons first.path first, if_pos rfl] at hfirst
      rw [ruleSet?_cons first'.path first', if_pos rfl] at hfirst'
      have hpath : first'.path = first.path := by
        cases hcmp : compare first.path first'.path with
        | eq => exact (Std.LawfulEqOrd.eq_of_compare hcmp).symm
        | lt =>
          rw [hord'.ruleSet?_before hcmp] at hfirst
          cases hfirst
        | gt =>
          rw [hord.ruleSet?_before (Std.OrientedCmp.lt_of_gt hcmp)] at hfirst'
          cases hfirst'
      rw [ruleSet?_cons, if_pos hpath] at hfirst
      cases hfirst with | some hR => ?_
      obtain ⟨hlt, hrest⟩ := List.pairwise_cons.1 hord
      obtain ⟨hlt', hrest'⟩ := List.pairwise_cons.1 hord'
      refine .cons hR (ih hrest hrest' fun path => ?_)
      by_cases hq : first.path = path
      · rw [← hq, ruleSet?_eq_none_of_lt hlt, ← hpath, ruleSet?_eq_none_of_lt hlt']
        exact .none
      · have hboth := h path
        rwa [ruleSet?_cons, if_neg hq, ruleSet?_cons, if_neg (hpath ▸ hq)] at hboth

/-- The rule set that a rule is added to. -/
def target (path : DataPath) (rule : Rule) (sets : List RuleSet) : RuleSet :=
  (ruleSet? path ⟨sets⟩).getD (.ofRules path rule.first.head.kind [])

/-- A rule is added to the rule set at its path, and the others stay as they are. -/
theorem insertRule_cases (hord : Ordered sets) (path : DataPath) (rule : Rule) :
    (∃ e, RuleSet.add rule (target path rule sets) = .error e ∧ insertRule path rule sets = .error e) ∨
      ∃ rs sets', RuleSet.add rule (target path rule sets) = .ok rs ∧ insertRule path rule sets = .ok sets' ∧
        ∀ q, ruleSet? q ⟨sets'⟩ = if path = q then some rs else ruleSet? q ⟨sets⟩ := by
  have hnew : ∀ (later : List RuleSet) (old : RuleSet), old.path = path →
      (∃ e, RuleSet.add rule old = .error e ∧ (RuleSet.add rule old).map (· :: later) = .error e) ∨
      ∃ rs sets', RuleSet.add rule old = .ok rs ∧ (RuleSet.add rule old).map (· :: later) = .ok sets' ∧
        ∀ q, ruleSet? q ⟨sets'⟩ = if path = q then some rs else ruleSet? q ⟨later⟩ := by
    intro later old hold
    cases hadd : RuleSet.add rule old with
    | error e => exact .inl ⟨e, rfl, rfl⟩
    | ok rs =>
      refine .inr ⟨rs, rs :: later, rfl, rfl, fun q => ?_⟩
      rw [ruleSet?_cons, RuleSet.path_add hadd, hold]
  induction sets with
  | nil => exact hnew [] _ rfl
  | cons first rest ih =>
    rw [insertRule]
    cases hcmp : compare path first.path with
    | lt =>
      rw [target, hord.ruleSet?_before hcmp]
      exact hnew (first :: rest) _ rfl
    | eq =>
      obtain rfl : path = first.path := Std.LawfulEqOrd.eq_of_compare hcmp
      rw [target, ruleSet?_cons, if_pos rfl]
      refine (hnew rest first rfl).imp_right ?_
      rintro ⟨rs, sets', hadd, hins, hsets⟩
      refine ⟨rs, sets', hadd, hins, fun q => ?_⟩
      rw [hsets, ruleSet?_cons]
      split <;> rfl
    | gt =>
      have hne : first.path ≠ path := ne_of_compare (Std.OrientedCmp.lt_of_gt hcmp)
      rw [target, ruleSet?_cons, if_neg hne]
      refine (ih (List.pairwise_cons.1 hord).2).imp ?_ ?_
      · rintro ⟨e, hadd, hins⟩
        exact ⟨e, hadd, by simp only [hins, Except.map]⟩
      · rintro ⟨rs, sets', hadd, hins, hsets⟩
        refine ⟨rs, first :: sets', hadd, by simp only [hins, Except.map], fun q => ?_⟩
        rw [ruleSet?_cons, ruleSet?_cons, hsets]
        by_cases hq : path = q
        · rw [if_pos hq, if_neg (hq ▸ hne), if_pos hq]
        · rw [if_neg hq, if_neg hq]

/-! ## Rules declared for paths -/

/-- The rules that are declared for a path, in their order. -/
def rulesAt (path : DataPath) (declared : List (DataPath × Rule)) : List Rule :=
  (declared.filter (·.1 == path)).map Prod.snd

/-- The rule set of the rules that are declared for a path. -/
def gathered? (path : DataPath) (declared : List (DataPath × Rule)) : Option RuleSet :=
  (rulesAt path declared).head?.map fun first => .ofRules path first.first.head.kind (rulesAt path declared)

variable {declared : List (DataPath × Rule)}

theorem rulesAt_snoc (path q : DataPath) (rule : Rule) (declared : List (DataPath × Rule)) :
    rulesAt q (declared ++ [(path, rule)]) =
      if path = q then rulesAt path declared ++ [rule] else rulesAt q declared := by
  rw [rulesAt, List.filter_append, List.filter_singleton]
  by_cases hq : path = q
  · rw [if_pos hq, hq, beq_self_eq_true, Bool.cond_true, List.map_append]
    rfl
  · rw [if_neg hq, beq_eq_false_iff_ne.2 hq, Bool.cond_false, List.append_nil]
    rfl

/-- The rule sets of a policy are those of the rules declared for their paths, and these agree. -/
structure Gathers (declared : List (DataPath × Rule)) (sets : List RuleSet) : Prop where
  ordered : Ordered sets
  ruleSet? : ∀ path, ruleSet? path ⟨sets⟩ = gathered? path declared
  agree : ∀ path, Rule.Agree (rulesAt path declared)

theorem gathers_nil : Gathers [] [] := ⟨.nil, fun _ => rfl, fun _ => ⟨nofun, nofun, nofun, Nat.zero_le 1⟩⟩

/-- A rule is added to the rules that were declared for its path. -/
theorem Gathers.target (h : Gathers declared sets) (path : DataPath) (rule : Rule) :
    ∃ first ∈ rulesAt path declared ++ [rule],
      target path rule sets = .ofRules path first.first.head.kind (rulesAt path declared) ∧
      gathered? path (declared ++ [(path, rule)]) =
        some (.ofRules path first.first.head.kind (rulesAt path declared ++ [rule])) ∧
      ∀ r ∈ rulesAt path declared, r.first.head.kind = first.first.head.kind := by
  have hagree := h.agree path
  rw [Policy.target, h.ruleSet?, gathered?, gathered?, rulesAt_snoc, if_pos rfl]
  cases hrules : rulesAt path declared with
  | nil => exact ⟨rule, List.mem_cons_self, rfl, rfl, nofun⟩
  | cons first rest =>
    rw [hrules] at hagree
    exact ⟨first, List.mem_cons_self, rfl, rfl, fun r hr => hagree.kind r hr first List.mem_cons_self⟩

theorem Gathers.snoc (h : Gathers declared sets) (hins : insertRule path rule sets = .ok sets') :
    Gathers (declared ++ [(path, rule)]) sets' := by
  obtain ⟨first, _, htarget, hnext, hkind⟩ := h.target path rule
  rcases insertRule_cases h.ordered path rule with ⟨e, _, hfail⟩ | ⟨rs, sets₁, hadd, hins₁, hsets⟩
  · rw [hins] at hfail
    cases hfail
  · rw [hins] at hins₁
    cases hins₁
    rw [htarget] at hadd
    obtain ⟨hsame, hagree⟩ := RuleSet.agree_of_add hkind (h.agree path) hadd
    have hall : ∀ r ∈ rulesAt path declared ++ [rule], r.first.head.kind = first.first.head.kind := by
      simpa [or_imp, forall_and] using ⟨hkind, hsame⟩
    rw [RuleSet.add_of_agree hall hagree] at hadd
    cases hadd
    refine ⟨ordered_insertRule h.ordered hins, fun q => ?_, fun q => ?_⟩
    · rw [hsets]
      split
      · next hq => rw [← hq, hnext]
      · next hq => rw [h.ruleSet?, gathered?, gathered?, rulesAt_snoc, if_neg hq]
    · rw [rulesAt_snoc]
      split
      · exact hagree
      · exact h.agree q

/-- A rule that agrees with those declared for its path before can be added. -/
theorem Gathers.insertRule (h : Gathers declared sets) (hagree : Rule.Agree (rulesAt path declared ++ [rule])) :
    ∃ sets', insertRule path rule sets = .ok sets' := by
  obtain ⟨first, hfirst, htarget, _⟩ := h.target path rule
  have hadd : RuleSet.add rule (.ofRules path first.first.head.kind (rulesAt path declared)) = _ :=
    RuleSet.add_of_agree (fun r hr => hagree.kind r hr first hfirst) hagree
  rcases insertRule_cases h.ordered path rule with ⟨e, hfail, _⟩ | ⟨rs, sets', _, hins, _⟩
  · rw [htarget, hadd] at hfail
    cases hfail
  · exact ⟨sets', hins⟩

/-- Rules are gathered if those for each path agree. -/
theorem gathers_of_foldlM (h : declared.foldlM (fun sets d => Policy.insertRule d.1 d.2 sets) [] = .ok sets) :
    Gathers declared sets := by
  induction declared using List.reverseRecOn generalizing sets with
  | nil =>
    cases h
    exact gathers_nil
  | append_singleton before d ih =>
    simp only [List.foldlM_append, List.foldlM_cons, List.foldlM_nil, bind_pure] at h
    cases hbefore : before.foldlM (fun sets d => Policy.insertRule d.1 d.2 sets) [] with
    | error e =>
      rw [hbefore] at h
      cases h
    | ok old =>
      rw [hbefore] at h
      exact (ih hbefore).snoc h

theorem foldlM_of_agree (h : ∀ path, Rule.Agree (rulesAt path declared)) :
    ∃ sets, declared.foldlM (fun sets d => Policy.insertRule d.1 d.2 sets) [] = .ok sets := by
  induction declared using List.reverseRecOn with
  | nil => exact ⟨[], rfl⟩
  | append_singleton before d ih =>
    have hbefore : ∀ path, Rule.Agree (rulesAt path before) := by
      intro path
      have hagree := h path
      rw [rulesAt_snoc] at hagree
      split at hagree
      · next hpath => exact hpath ▸ hagree.of_append
      · exact hagree
    obtain ⟨old, hold⟩ := ih hbefore
    have hagree := h d.1
    rw [rulesAt_snoc, if_pos rfl] at hagree
    obtain ⟨sets, hins⟩ := (gathers_of_foldlM hold).insertRule hagree
    refine ⟨sets, ?_⟩
    simp only [List.foldlM_append, List.foldlM_cons, List.foldlM_nil, bind_pure, hold]
    exact hins

theorem Gathers.unique (h : Gathers declared sets) (h' : Gathers declared sets') : sets = sets' := by
  refine List.forall₂_eq_eq_eq ▸ forall₂_of_ordered h.ordered h'.ordered fun path => ?_
  rw [h.ruleSet?, h'.ruleSet?]
  cases gathered? path declared with
  | none => exact .none
  | some rs => exact .some rfl

end Policy

/-! ## Modules -/

namespace Module

/-- The rules that modules declare, each in its package. -/
def declarations (modules : List Module) : List (List String × Rule) :=
  modules.flatMap fun m => m.rules.map (m.package, ·)

/-- The rules that modules declare, each for its path. -/
def declared (modules : List Module) : List (DataPath × Rule) :=
  (declarations modules).filterMap fun d => (d.2.normalize d.1).toOption

end Module

namespace Policy

variable {modules modules' : List Module} {policy : Policy}

theorem foldlM_declarations (modules : List Module) (sets : List RuleSet) :
    modules.foldlM (fun sets m => m.rules.foldlM (addRule m.package) sets) sets =
      (Module.declarations modules).foldlM (fun sets d => addRule d.1 sets d.2) sets := by
  induction modules generalizing sets with
  | nil => rfl
  | cons m rest ih =>
    simp only [Module.declarations, List.flatMap_cons, List.foldlM_append, List.foldlM_cons, List.foldlM_map] at ih ⊢
    exact congrArg (m.rules.foldlM (addRule m.package) sets >>= ·) (funext ih)

/-- Rules are added if they can be normalized and then inserted. -/
theorem foldlM_addRule_iff {declarations : List (List String × Rule)} :
    declarations.foldlM (fun sets d => addRule d.1 sets d.2) sets = .ok sets' ↔
      (∀ d ∈ declarations, (d.2.normalize d.1).isOk = true) ∧
        (declarations.filterMap fun d => (d.2.normalize d.1).toOption).foldlM
          (fun sets d => insertRule d.1 d.2 sets) sets = .ok sets' := by
  induction declarations generalizing sets with
  | nil => simp
  | cons d rest ih =>
    rw [List.foldlM_cons, List.forall_mem_cons, addRule, List.filterMap_cons]
    cases hnorm : d.2.normalize d.1 with
    | error e => simp [Except.isOk, Except.toBool, bind, Except.bind]
    | ok n =>
      simp only [Except.isOk, Except.toBool, Except.toOption, List.foldlM_cons, true_and, bind, Except.bind]
      cases insertRule n.1 n.2 sets with
      | error e => simp
      | ok next => exact ih

/-- Modules compile if their rules are for paths, the rules for each path agree, and no path is below another. -/
theorem compile_eq_ok_iff : compile modules = .ok policy ↔
    (∀ d ∈ Module.declarations modules, (d.2.normalize d.1).isOk = true) ∧
      Gathers (Module.declared modules) policy.ruleSets ∧ checkPaths policy.ruleSets = .ok () := by
  rw [compile_iff, foldlM_declarations, foldlM_addRule_iff]
  constructor
  · rintro ⟨⟨hok, hfold⟩, hcheck⟩
    exact ⟨hok, gathers_of_foldlM hfold, hcheck⟩
  · rintro ⟨hok, hgathers, hcheck⟩
    obtain ⟨sets', hfold⟩ := foldlM_of_agree hgathers.agree
    rw [← hgathers.unique (gathers_of_foldlM hfold)] at hfold
    exact ⟨⟨hok, hfold⟩, hcheck⟩

end Policy

/-! ## Another order -/

/-- A rule set with the rules of another in another order. -/
structure RuleSet.Reorders (rs rs' : RuleSet) : Prop where
  path : rs'.path = rs.path
  kind : rs'.kind = rs.kind
  default : rs'.default = rs.default
  rules : rs'.rules.Perm rs.rules

/-- A policy with the rules of another, those for a path in another order. -/
def Policy.Reorders (path : DataPath) (policy policy' : Policy) : Prop :=
  List.Forall₂ (fun rs rs' => rs.Reorders rs' ∧ (rs.path ≠ path → rs' = rs)) policy.ruleSets policy'.ruleSets

/-- Modules that declare the rules of others, in the same packages, and only those for a path in another order. -/
structure Module.Reorders (path : DataPath) (modules modules' : List Module) : Prop where
  perm : (declarations modules').Perm (declarations modules)
  others : ∀ q ≠ path, Policy.rulesAt q (declared modules') = Policy.rulesAt q (declared modules)

theorem RuleSet.Reorders.refl (rs : RuleSet) : rs.Reorders rs := ⟨rfl, rfl, rfl, .refl _⟩

theorem RuleSet.Reorders.symm {rs rs' : RuleSet} (h : rs.Reorders rs') : rs'.Reorders rs :=
  ⟨h.path.symm, h.kind.symm, h.default.symm, h.rules.symm⟩

theorem Policy.Reorders.symm {path : DataPath} {policy policy' : Policy} (h : policy.Reorders path policy') :
    policy'.Reorders path policy := by
  refine List.Forall₂.flip (h.imp fun rs rs' hrs => ?_)
  exact ⟨hrs.1.symm, fun hne => (hrs.2 (hrs.1.path ▸ hne)).symm⟩

theorem Module.Reorders.symm {path : DataPath} {modules modules' : List Module} (h : Reorders path modules modules') :
    Reorders path modules' modules :=
  ⟨h.perm.symm, fun q hq => (h.others q hq).symm⟩

namespace Policy

variable {path : DataPath} {modules modules' : List Module} {policy : Policy}

end Policy
end PolicyEngine
