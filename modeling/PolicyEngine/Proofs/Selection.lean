import PolicyEngine.Proofs.Indexing
import PolicyEngine.Proofs.Substitution

/-!
The rules that an index selects. An index counts for each rule how many of its constraints hold, and asks for as many
as the rule has. No constraint is counted twice, so these are the rules whose constraints all hold, and the rules with
`else`.
-/
namespace PolicyEngine

open Term (Same SortedBy)

/-! ## Constraints that hold -/

/-- The terms among which a membership looks for its value. -/
def Term.contents : Term → List Term
  | .array items => items
  | .set members => members
  | .object fields => fields.map Prod.snd
  | _ => []

namespace Constraint

/-- A constraint holds where references stand for given values. -/
def Holds (value : Term → Option Term) : Constraint → Prop
  | .equals r v => ∃ w, value r = some w ∧ Same w v
  | .member r v => ∃ w, value r = some w ∧ ∃ m ∈ w.contents, Same m v

end Constraint

/-- A resolver gives each reference a fixed value, or none, and no error. Equal references are one reference, and equal
values are one value. -/
structure Resolves {σ : Type} (resolve : Term → σ → Except EvalError (Option Term) × σ) (value : Term → Option Term) :
    Prop where
  answers : ∀ r s, ∃ s', resolve r s = (.ok (value r), s')
  respects : ∀ r r', Same r r' → Option.Rel Same (value r) (value r')

/-! ## Elements -/

namespace RuleIndex

theorem exists_mem_elements {w v : Term} : (∃ m ∈ elements w, Same v m) ↔ ∃ m ∈ w.contents, Same m v := by
  have hsort : ∀ ts : List Term, (∃ m ∈ Term.sortMembers ts, Same v m) ↔ ∃ m ∈ ts, Same m v := by
    intro ts
    constructor
    · rintro ⟨m, hm, hvm⟩
      exact ⟨m, Term.mem_sortMembers hm, hvm.symm⟩
    · rintro ⟨m, hm, hmv⟩
      obtain ⟨n, hn, hmn⟩ := Term.exists_mem_sortMembers hm
      exact ⟨n, hn, hmv.symm.trans hmn⟩
  cases w with
  | array items => exact hsort items
  | object fields => exact hsort _
  | set members => exact hsort members
  | _ => simp [elements, Term.contents]

theorem sortedBy_elements (w : Term) : SortedBy id (elements w) := by
  cases w with
  | array items | set items => exact Term.sortedBy_sortMembers items
  | object fields => exact Term.sortedBy_sortMembers _
  | _ => exact .nil

/-- Equal collections have equal elements. -/
theorem elements_congr {w w' : Term} (h : Same w w') : List.Forall₂ Same (elements w) (elements w') := by
  have hrank := h.rank_eq
  have hsort : ∀ {xs ys : List Term}, List.Forall₂ Same xs ys →
      List.Forall₂ Same (Term.sortMembers xs) (Term.sortMembers ys) :=
    fun hxy => Term.same_set.1 (Term.same_setOf_of_forall₂ hxy)
  cases w with
  | array xs =>
    cases w' <;> simp only [Term.rank, reduceCtorEq] at hrank <;> try omega
    exact hsort (Term.same_array.1 h)
  | object fs =>
    cases w' <;> simp only [Term.rank, reduceCtorEq] at hrank <;> try omega
    refine hsort ?_
    rw [List.forall₂_map_left_iff, List.forall₂_map_right_iff]
    exact (Term.same_object.1 h).imp fun _ _ => And.right
  | set xs =>
    cases w' <;> simp only [Term.rank, reduceCtorEq] at hrank <;> try omega
    exact hsort (Term.same_set.1 h)
  | _ =>
    cases w' <;> simp only [Term.rank, reduceCtorEq] at hrank <;> first | omega | exact .nil

end RuleIndex

/-- A member of a set is found there once. -/
theorem Term.SortedBy.countP_le_one {xs : List Term} (h : SortedBy id xs) (v : Term) :
    xs.countP (v == ·) ≤ 1 := by
  induction xs with
  | nil => simp
  | cons x rest ih =>
    rw [SortedBy, List.pairwise_cons] at h
    rw [List.countP_cons]
    split
    · next hx =>
      have hnone : rest.countP (v == ·) = 0 := by
        rw [List.countP_eq_zero]
        intro y hy hvy
        refine Term.cmp_ne_lt_of_beq (Term.beq_trans (Term.beq_symm hx) hvy) (h.1 y hy)
      omega
    · exact ih h.2

namespace IndexTable

theorem rulesFor_congr {w w' : Term} (h : Same w w') (buckets : List (Term × List Nat)) :
    rulesFor w buckets = rulesFor w' buckets := by
  induction buckets with
  | nil => rfl
  | cons bucket rest ih =>
    obtain ⟨v, rules⟩ := bucket
    have hv : (v == w) = (v == w') := by
      rw [BEq.comm, Term.beq_congr_left h, BEq.comm]
    rw [rulesFor_cons, rulesFor_cons, hv, ih]

end IndexTable

namespace RuleIndex

theorem equalsHits_congr {w w' : Term} (h : Same w w') (buckets : List (Term × List Nat)) :
    equalsHits w buckets = equalsHits w' buckets :=
  IndexTable.rulesFor_congr h buckets

theorem memberHits_congr {w w' : Term} (h : Same w w') (buckets : List (Term × List Nat)) :
    memberHits w buckets = memberHits w' buckets := by
  have hflat : ∀ {xs ys : List Term}, List.Forall₂ Same xs ys →
      xs.flatMap (IndexTable.rulesFor · buckets) = ys.flatMap (IndexTable.rulesFor · buckets) := by
    intro xs ys hxy
    induction hxy with
    | nil => rfl
    | cons hxy _ ih => rw [List.flatMap_cons, List.flatMap_cons, IndexTable.rulesFor_congr hxy, ih]
  exact hflat (elements_congr h)

end RuleIndex

/-! ## One value for equal references -/

namespace Term

/-- Equality of the language. -/
def equality : Setoid Term := ⟨Same, .refl, .symm, .trans⟩

/-- One of the terms equal to a term, the same for all of them. -/
noncomputable def representative (t : Term) : Term := (Quotient.mk equality t).out

theorem same_representative (t : Term) : Same t.representative t :=
  @Quotient.mk_out Term equality t

theorem representative_congr {t u : Term} (h : Same t u) : t.representative = u.representative :=
  congrArg Quotient.out (@Quotient.sound Term equality t u h)

end Term

namespace Resolves

variable {σ : Type} {resolve : Term → σ → Except EvalError (Option Term) × σ} {value : Term → Option Term}

/-- The value that all references equal to one are taken to have. -/
noncomputable def canonical (value : Term → Option Term) (r : Term) : Option Term := value r.representative

theorem rel_canonical (h : Resolves resolve value) (r : Term) : Option.Rel Same (value r) (canonical value r) :=
  h.respects _ _ (Term.same_representative r).symm

theorem canonical_rel (h : Resolves resolve value) (r : Term) : Option.Rel Same (canonical value r) (value r) :=
  h.respects _ _ (Term.same_representative r)

theorem canonical_congr (value : Term → Option Term) {r r' : Term} (h : Same r r') :
    canonical value r = canonical value r' :=
  congrArg value (Term.representative_congr h)

/-- The hits of a table are those that the canonical values give. -/
theorem run_hits (h : Resolves resolve value) {found : Term → List (Term × List Nat) → List Nat}
    (hfound : ∀ w w' buckets, Same w w' → found w buckets = found w' buckets) (table : IndexTable) (s : σ) :
    ∃ s', RuleIndex.hits found resolve table s = (.ok (IndexTable.hitsOf found (canonical value) table), s') := by
  induction table generalizing s with
  | nil => exact ⟨s, rfl⟩
  | cons entry rest ih =>
    obtain ⟨s₁, hentry⟩ := h.answers entry.1 s
    obtain ⟨s₂, hrest⟩ := ih s₁
    refine ⟨s₂, ?_⟩
    have hsame : (value entry.1).map (found · entry.2) = (canonical value entry.1).map (found · entry.2) := by
      have hrel := h.rel_canonical entry.1
      generalize value entry.1 = w, canonical value entry.1 = w' at hrel
      cases hrel with
      | none => rfl
      | some hw => exact congrArg some (hfound _ _ entry.2 hw)
    simp only [RuleIndex.hits, hentry, hrest, hsame, IndexTable.hitsOf, List.flatMap_cons]

end Resolves

/-! ## How often constraints hold -/

namespace Constraint

variable {σ : Type} {resolve : Term → σ → Except EvalError (Option Term) × σ} {value : Term → Option Term}
  {overlaps : DataPath → Bool}

/-- Whether a constraint holds depends on its terms, and on the value of its reference, up to equality only. -/
theorem holds_congr {value' : Term → Option Term} {c c' : Constraint} (hsame : c.same c' = true)
    (hvalue : Option.Rel Same (value c.reference) (value' c'.reference)) (h : c.Holds value) : c'.Holds value' := by
  cases c with
  | equals r v =>
    cases c' <;> simp only [same, Bool.and_eq_true, Bool.false_eq_true] at hsame
    next r' v' =>
    obtain ⟨w, hw, hwv⟩ := h
    have hrel : Option.Rel Same (value r) (value' r') := hvalue
    rw [hw] at hrel
    generalize hr' : value' r' = found at hrel
    cases hrel with
    | some hww' => exact ⟨_, hr', (Same.symm hww').trans (hwv.trans hsame.2)⟩
  | member r v =>
    cases c' <;> simp only [same, Bool.and_eq_true, Bool.false_eq_true] at hsame
    next r' v' =>
    obtain ⟨w, hw, m, hm, hmv⟩ := h
    have hrel : Option.Rel Same (value r) (value' r') := hvalue
    rw [hw] at hrel
    generalize hr' : value' r' = found at hrel
    cases hrel with
    | @some _ w' hww' =>
      -- the member is found among the elements, which are equal one by one
      obtain ⟨n, hn, hvn⟩ := RuleIndex.exists_mem_elements.2 ⟨m, hm, hmv⟩
      have hn' : ∃ n' ∈ RuleIndex.elements w', Same v' n' := by
        obtain ⟨n', hn', hnn'⟩ := Term.within_of_forall₂ (RuleIndex.elements_congr hww') n hn
        exact ⟨n', hn', (Same.symm hsame.2).trans (hvn.trans hnn')⟩
      exact ⟨w', hr', RuleIndex.exists_mem_elements.1 hn'⟩

/-- A constraint is counted at most once, and is counted if it holds. -/
theorem weight_eq (value : Term → Option Term) (c : Constraint) :
    c.weight value ≤ 1 ∧ (c.weight value = 1 ↔ c.Holds value) := by
  cases c with
  | equals r v =>
    rw [weight, IndexTable.weightOf, Holds]
    cases value r with
    | none => simp
    | some w =>
      have hsymm : (v == w) = true ↔ Same w v := ⟨Same.symm, Same.symm⟩
      cases h : v == w <;> simp_all
  | member r v =>
    rw [weight, IndexTable.weightOf, Holds]
    cases hr : value r with
    | none => simp
    | some w =>
      simp only [Option.map_some, Option.getD_some, Option.some.injEq, exists_eq_left']
      have hle : (RuleIndex.elements w).countP (v == ·) ≤ 1 := (RuleIndex.sortedBy_elements w).countP_le_one v
      refine ⟨hle, ?_⟩
      rw [← RuleIndex.exists_mem_elements]
      have hpos : 0 < (RuleIndex.elements w).countP (v == ·) ↔ ∃ m ∈ RuleIndex.elements w, Same v m := by
        rw [List.countP_pos_iff]
        rfl
      rw [← hpos]
      omega

theorem sum_map_eq_length {γ : Type} {cs : List γ} {weight : γ → Nat} (h : ∀ c ∈ cs, weight c ≤ 1) :
    (cs.map weight).sum ≤ cs.length ∧ ((cs.map weight).sum = cs.length ↔ ∀ c ∈ cs, weight c = 1) := by
  induction cs with
  | nil => simp
  | cons c rest ih =>
    rw [List.forall_mem_cons] at h
    obtain ⟨hle, hiff⟩ := ih h.2
    rw [List.map_cons, List.sum_cons, List.length_cons, List.forall_mem_cons, ← hiff]
    have hc := h.1
    constructor <;> omega

theorem same_refl (c : Constraint) : c.same c = true := by
  cases c <;> simp only [same, Term.beq_refl, Bool.and_self]

theorem same_symm {c d : Constraint} (h : c.same d = true) : d.same c = true := by
  cases c <;> cases d <;> simp only [same, Bool.and_eq_true, Bool.false_eq_true] at h ⊢ <;>
    exact ⟨Term.beq_symm h.1, Term.beq_symm h.2⟩

theorem mem_foldl_addDistinct {cs start : List Constraint} {c : Constraint} (h : c ∈ start) :
    c ∈ cs.foldl addDistinct start := by
  induction cs generalizing start with
  | nil => exact h
  | cons first rest ih =>
    refine ih ?_
    rw [addDistinct]
    split
    · exact h
    · exact List.mem_append_left _ h

/-- Of the same constraints one is kept. -/
theorem exists_same_foldl_addDistinct {cs : List Constraint} {c : Constraint} (h : c ∈ cs) (start : List Constraint) :
    ∃ d ∈ cs.foldl addDistinct start, c.same d = true := by
  induction cs generalizing start with
  | nil => cases h
  | cons first rest ih =>
    rw [List.foldl_cons]
    rcases List.mem_cons.1 h with rfl | h
    · have hkept : ∃ d ∈ addDistinct start c, c.same d = true := by
        rw [addDistinct]
        split
        · next hany => exact List.any_eq_true.1 hany
        · exact ⟨c, List.mem_append_right _ List.mem_cons_self, c.same_refl⟩
      obtain ⟨d, hd, hsame⟩ := hkept
      exact ⟨d, mem_foldl_addDistinct hd, hsame⟩
    · exact ih h _

theorem same_reference {c d : Constraint} (h : c.same d = true) : Same c.reference d.reference := by
  cases c <;> cases d <;> simp only [same, Bool.and_eq_true, Bool.false_eq_true] at h <;> exact h.1

/-- All distinct constraints of a rule hold if the rule has an `else` or all constraints of its body hold. -/
theorem forall_ofRule_iff (hvalue : ∀ r r', Same r r' → Option.Rel Same (value r) (value r')) (rule : Rule) :
    (∀ c ∈ ofRule overlaps rule, c.Holds value) ↔
      rule.otherwise ≠ [] ∨ ∀ e ∈ rule.first.body, ∀ c, ofExpr? overlaps e = some c → c.Holds value := by
  rw [ofRule]
  cases rule.otherwise with
  | cons clause rest => simp
  | nil =>
    simp only [List.isEmpty_nil, Bool.not_true, Bool.false_eq_true, if_false, ne_eq, not_true_eq_false, false_or]
    constructor
    · intro h e he c hc
      have hmem : c ∈ rule.first.body.filterMap (ofExpr? overlaps) := List.mem_filterMap.2 ⟨e, he, hc⟩
      obtain ⟨d, hd, hsame⟩ := exists_same_foldl_addDistinct hmem []
      exact holds_congr (same_symm hsame) (hvalue _ _ (same_reference (same_symm hsame))) (h d hd)
    · intro h c hc
      have hmem := (mem_of_mem_foldl_addDistinct hc).resolve_left List.not_mem_nil
      obtain ⟨e, he, hec⟩ := List.mem_filterMap.1 hmem
      exact h e he c hec

end Constraint

/-! ## Candidates -/

namespace RuleIndex

variable {σ : Type} {resolve : Term → σ → Except EvalError (Option Term) × σ} {value : Term → Option Term}
  {overlaps : DataPath → Bool}

/-- A rule is due if it has an `else`, or if all constraints that its body sets hold. -/
def Due (overlaps : DataPath → Bool) (value : Term → Option Term) (rule : Rule) : Prop :=
  rule.otherwise ≠ [] ∨ ∀ e ∈ rule.first.body, ∀ c, Constraint.ofExpr? overlaps e = some c → c.Holds value

/-- A rule has as many hits as constraints if it is due. -/
theorem score_eq_length_iff (h : Resolves resolve value) (rule : Rule) :
    Constraint.score overlaps (Resolves.canonical value) rule = (Constraint.ofRule overlaps rule).length ↔
      Due overlaps value rule := by
  have hweight : ∀ c : Constraint, c.weight (Resolves.canonical value) ≤ 1 ∧
      (c.weight (Resolves.canonical value) = 1 ↔ c.Holds (Resolves.canonical value)) :=
    Constraint.weight_eq _
  rw [Constraint.score, (Constraint.sum_map_eq_length fun c _ => (hweight c).1).2, Due,
    ← Constraint.forall_ofRule_iff h.respects]
  refine forall₂_congr fun c _ => (hweight c).2.trans ⟨?_, ?_⟩
  · exact Constraint.holds_congr c.same_refl (h.canonical_rel c.reference)
  · exact Constraint.holds_congr c.same_refl (h.rel_canonical c.reference)

/-- The positions of the counts that are reached. -/
def reached (counts satisfied : List Nat) : List Nat :=
  (counts.zipIdx.filter fun (count, i) => satisfied.count i == count).map Prod.snd

theorem mem_reached {counts satisfied : List Nat} {i : Nat} :
    i ∈ reached counts satisfied ↔ counts[i]? = some (satisfied.count i) := by
  simp only [reached, List.mem_map, List.mem_filter, Prod.exists, beq_iff_eq, exists_eq_right,
    List.mk_mem_zipIdx_iff_getElem?]
  constructor
  · rintro ⟨count, hcount, rfl⟩
    exact hcount
  · intro hcount
    exact ⟨_, hcount, rfl⟩

theorem pairwise_reached (counts satisfied : List Nat) : (reached counts satisfied).Pairwise (· < ·) := by
  have hall : (counts.zipIdx.map Prod.snd).Pairwise (· < ·) := by
    rw [List.zipIdx_map_snd]
    exact List.pairwise_lt_range'
  exact hall.sublist (List.filter_sublist.map _)

/-- The candidates are the rules with as many hits as constraints. -/
theorem run_candidates (h : Resolves resolve value) (index : RuleIndex) (s : σ) :
    ∃ s', index.candidates resolve s =
      (.ok (reached index.counts (index.satisfied (Resolves.canonical value))), s') := by
  obtain ⟨s₁, hequals⟩ := h.run_hits (fun _ _ buckets hw => equalsHits_congr hw buckets) index.equals s
  obtain ⟨s₂, hmembers⟩ := h.run_hits (fun _ _ buckets hw => memberHits_congr hw buckets) index.members s₁
  refine ⟨s₂, ?_⟩
  rw [candidates, hequals]
  simp only [hmembers]
  rfl

/-- An index selects exactly the rules that are due: those with an `else` and those whose constraints all hold, in the
order in which they are declared. -/
theorem candidates_build (h : Resolves resolve value) (overlaps : DataPath → Bool) (ruleList : List Rule) (s : σ) :
    ∃ positions s', (build overlaps ruleList).candidates resolve s = (.ok positions, s') ∧
      positions.Pairwise (· < ·) ∧
      ∀ i, i ∈ positions ↔ ∃ rule, ruleList[i]? = some rule ∧ Due overlaps value rule := by
  have hindex : Indexes overlaps (Resolves.canonical value) ruleList (build overlaps ruleList) :=
    indexes_build (fun _ _ => Resolves.canonical_congr value) ruleList
  obtain ⟨s', hrun⟩ := run_candidates h (build overlaps ruleList) s
  refine ⟨_, s', hrun, pairwise_reached _ _, fun i => ?_⟩
  rw [mem_reached, hindex.counts, hindex.satisfied, List.getElem?_map]
  cases ruleList[i]? with
  | none => simp
  | some rule =>
    simp only [Option.map_some, Option.getD_some, Option.some.injEq, exists_eq_left', ← score_eq_length_iff h rule]
    exact eq_comm

end RuleIndex

/-! ### A user with a level and tags -/

namespace Roles

def input (key : String) : Term := .ref (.var "input") [.string key]

def user : Term := .string "bob"

/-- One, as a floating-point word. -/
def level : Term := .number (.float ⟨0x3FF0000000000000⟩)

def tags : Term := .array [.string "x", .string "y", .string "x"]

def value (r : Term) : Option Term :=
  if r == input "user" then some user
  else if r == input "level" then some level
  else if r == input "tags" then some tags
  else none

def resolve (r : Term) (s : Unit) : Except EvalError (Option Term) × Unit := (.ok (value r), s)

def asks (operator : Term) (x y : Term) : Expr := .ofKind (.term (.call operator [x, y]))
def equal : Term := .ref (.var "equal") []
def member : Term := .ref (.var "internal") [.string "member_2"]

def allowIf (body : Body) (otherwise : List Clause) : Rule :=
  ⟨{ head := { name := .var "allow", keys := [] }, body := body }, otherwise⟩

/-- The same constraint twice, one that does not hold, members found twice beside a number in another representation, and
the second rule again, with an `else`. -/
def ruleList : List Rule :=
  [allowIf [asks equal (input "user") user, asks equal user (input "user")] [],
    allowIf [asks equal (input "user") (.string "admin"), asks member (.string "x") (input "tags")] [],
    allowIf [asks member (.string "x") (input "tags"), asks member (.string "y") (input "tags"),
      asks equal (.number 1) (input "level")] [],
    allowIf [asks equal (input "user") (.string "admin")] [{ head := { name := .var "allow", keys := [] } }]]

theorem resolves : Resolves resolve value := by
  refine ⟨fun r s => ⟨s, rfl⟩, fun r r' hr => ?_⟩
  have hsame : value r = value r' := by simp only [value, Term.beq_congr_left hr]
  rw [hsame]
  cases value r' with
  | none => exact .none
  | some w => exact .some (.refl w)

/-- The rules selected for the user. -/
def selected : List Nat :=
  (((RuleIndex.build (fun _ => false) ruleList).candidates resolve ()).1.toOption).getD []

theorem candidates_roles :
    Resolves resolve value ∧ selected = [0, 2, 3] ∧
      ∀ i, i ∈ selected ↔ ∃ rule, ruleList[i]? = some rule ∧ RuleIndex.Due (fun _ => false) value rule := by
  obtain ⟨positions, s', hrun, _, hdue⟩ := RuleIndex.candidates_build resolves (fun _ => false) ruleList ()
  have hselected : selected = positions := by rw [selected, hrun]; rfl
  exact ⟨resolves, by decide +kernel, hselected ▸ hdue⟩

end Roles
end PolicyEngine
