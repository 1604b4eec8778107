import PolicyEngine.Proofs.Ideal

/-!
What holds of compiled policies: the rule sets stand in the order of their paths, so no two have the same one.
-/
namespace PolicyEngine

theorem RuleSet.path_add {rule : Rule} {rs rs' : RuleSet} (h : RuleSet.add rule rs = .ok rs') : rs'.path = rs.path := by
  simp only [RuleSet.add] at h
  split at h
  · cases h
  split at h
  · cases h
  split at h
  · split at h
    · cases h
    split at h
    · cases h
    · cases h
      rfl
  · cases h
    rfl

theorem Except.absurd_error {ε β : Type} {p : Prop} {r : Except ε β} {b : β} {e : ε} (h : r = .ok b)
    (he : r = .error e) : p := by
  cases h.symm.trans he

theorem Except.map_eq_ok {ε β γ : Type} {f : β → γ} {r : Except ε β} {c : γ} (h : r.map f = .ok c) :
    ∃ b, r = .ok b ∧ f b = c := by
  cases r with
  | error e => cases h
  | ok b =>
    cases h
    exact ⟨b, rfl, rfl⟩

theorem Except.eq_ok_of_isOk {ε β : Type} {r : Except ε β} (h : r.isOk = true) (b : β) :
    r = .ok (r.toOption.getD b) := by
  cases r with
  | error e => cases h
  | ok c => rfl

/-- What every successful step keeps holds at the end of a successful fold. -/
theorem foldlM_keeps {ε β γ : Type} {f : β → γ → Except ε β} {p : β → Prop}
    (hf : ∀ b c b', p b → f b c = .ok b' → p b') (cs : List γ) {b b' : β} (hb : p b) (h : cs.foldlM f b = .ok b') :
    p b' := by
  induction cs generalizing b with
  | nil =>
    cases h
    exact hb
  | cons c rest ih =>
    rw [List.foldlM_cons] at h
    cases hc : f b c with
    | error e =>
      rw [hc] at h
      cases h
    | ok b₁ =>
      rw [hc] at h
      exact ih (hf b c b₁ hb hc) h

namespace Policy

/-- The rule sets stand in the order of their paths. -/
def Ordered (sets : List RuleSet) : Prop := sets.Pairwise fun a b => compare a.path b.path = .lt

variable {path : DataPath} {rule : Rule} {sets sets' : List RuleSet}

theorem path_of_mem_insertRule (h : insertRule path rule sets = .ok sets') {rs : RuleSet} (hrs : rs ∈ sets') :
    rs.path = path ∨ ∃ old ∈ sets, rs.path = old.path := by
  induction sets generalizing sets' with
  | nil =>
    obtain ⟨new, hnew, rfl⟩ := Except.map_eq_ok h
    rw [List.mem_singleton] at hrs
    exact .inl (hrs ▸ RuleSet.path_add hnew)
  | cons first rest ih =>
    simp only [insertRule] at h
    split at h
    · obtain ⟨new, hnew, rfl⟩ := Except.map_eq_ok h
      rcases List.mem_cons.1 hrs with rfl | hrs
      · exact .inl (RuleSet.path_add hnew)
      · exact .inr ⟨rs, hrs, rfl⟩
    · obtain ⟨new, hnew, rfl⟩ := Except.map_eq_ok h
      rcases List.mem_cons.1 hrs with rfl | hrs
      · exact .inr ⟨first, List.mem_cons_self, RuleSet.path_add hnew⟩
      · exact .inr ⟨rs, List.mem_cons_of_mem _ hrs, rfl⟩
    · obtain ⟨later, hlater, rfl⟩ := Except.map_eq_ok h
      rcases List.mem_cons.1 hrs with rfl | hrs
      · exact .inr ⟨rs, List.mem_cons_self, rfl⟩
      · refine (ih hlater hrs).imp_right fun ⟨old, hold, hpath⟩ => ⟨old, List.mem_cons_of_mem _ hold, hpath⟩

theorem ordered_insertRule (hord : Ordered sets) (h : insertRule path rule sets = .ok sets') : Ordered sets' := by
  induction sets generalizing sets' with
  | nil =>
    obtain ⟨new, _, rfl⟩ := Except.map_eq_ok h
    exact List.pairwise_singleton _ _
  | cons first rest ih =>
    obtain ⟨hfirst, hrest⟩ := List.pairwise_cons.1 hord
    simp only [insertRule] at h
    split at h
    · next hlt =>
      obtain ⟨new, hnew, rfl⟩ := Except.map_eq_ok h
      have hpath : new.path = path := RuleSet.path_add hnew
      refine List.pairwise_cons.2 ⟨fun rs hrs => ?_, hord⟩
      rw [hpath]
      rcases List.mem_cons.1 hrs with rfl | hrs
      · exact hlt
      · exact Std.TransCmp.lt_trans hlt (hfirst rs hrs)
    · obtain ⟨new, hnew, rfl⟩ := Except.map_eq_ok h
      refine List.pairwise_cons.2 ⟨fun rs hrs => ?_, hrest⟩
      rw [RuleSet.path_add hnew]
      exact hfirst rs hrs
    · next hgt =>
      obtain ⟨later, hlater, rfl⟩ := Except.map_eq_ok h
      refine List.pairwise_cons.2 ⟨fun rs hrs => ?_, ih hrest hlater⟩
      rcases path_of_mem_insertRule hlater hrs with hpath | ⟨old, hold, hpath⟩ <;> rw [hpath]
      · exact Std.OrientedCmp.lt_of_gt hgt
      · exact hfirst old hold

theorem ne_of_compare {p q : DataPath} (h : compare p q = .lt) : p ≠ q := by
  rintro rfl
  have heq : compare p p = .eq := Std.ReflCmp.compare_self
  rw [heq] at h
  cases h

theorem Ordered.distinct (hord : Ordered sets) : Distinct ⟨sets⟩ := by
  induction sets with
  | nil => exact fun _ hrs => nomatch hrs
  | cons first rest ih =>
    obtain ⟨hfirst, hrest⟩ := List.pairwise_cons.1 hord
    intro rs hrs rs' hrs' hpath
    rcases List.mem_cons.1 hrs with rfl | hin <;> rcases List.mem_cons.1 hrs' with rfl | hin'
    · rfl
    · exact (ne_of_compare (hfirst rs' hin') hpath.symm).elim
    · exact (ne_of_compare (hfirst rs hin) hpath).elim
    · exact ih hrest rs hin rs' hin' hpath

theorem ordered_addRule {package : List String} (hord : Ordered sets) (h : addRule package sets rule = .ok sets') :
    Ordered sets' := by
  simp only [addRule] at h
  cases hn : rule.normalize package with
  | error e =>
    rw [hn] at h
    cases h
  | ok r =>
    rw [hn] at h
    exact ordered_insertRule hord h

/-- Modules compile if all rules can be added and the paths are those of separate documents. -/
theorem compile_iff {modules : List Module} {policy : Policy} : compile modules = .ok policy ↔
    modules.foldlM (fun sets m => m.rules.foldlM (addRule m.package) sets) [] = .ok policy.ruleSets ∧
      checkPaths policy.ruleSets = .ok () := by
  obtain ⟨sets⟩ := policy
  rw [compile]
  cases modules.foldlM (fun sets m => m.rules.foldlM (addRule m.package) sets) ([] : List RuleSet) with
  | error e => simp [bind, Except.bind]
  | ok sets' =>
    simp only [bind, Except.bind, Except.ok.injEq]
    cases hcheck : checkPaths sets' with
    | error e =>
      simp only [reduceCtorEq, false_iff, not_and]
      rintro rfl
      simp [hcheck]
    | ok u =>
      simp only [Except.ok.injEq, Policy.mk.injEq, iff_self_and]
      rintro rfl
      exact hcheck

theorem ordered_of_compile {modules : List Module} {policy : Policy} (h : compile modules = .ok policy) :
    Ordered policy.ruleSets :=
  foldlM_keeps (p := Ordered) (fun _ m _ hb hm => foldlM_keeps (fun _ _ _ hb hr => ordered_addRule hb hr) m.rules hb hm)
    modules .nil (compile_iff.1 h).1

/-- No two rule sets of a compiled policy have the same path. -/
theorem distinct_of_compile {modules : List Module} {policy : Policy} (h : compile modules = .ok policy) :
    policy.Distinct :=
  (ordered_of_compile h).distinct

end Policy
end PolicyEngine
