import PolicyEngine.Proofs.Reading

/-!
What an index selects. A rule is selected when as many of its constraints hold as it has, and which of them hold is
found by looking at the rule alone: that rules share the entries of an index makes no difference. So the rules that are
selected from a list are those of the list that would be selected from any other.
-/
namespace PolicyEngine

/-! ## Documents whose elements can be addressed -/

namespace Term

mutual
/-- Every element of every array in a document has a position that is an exact number in each representation. -/
def fits : Term → Bool
  | .array items => items.length ≤ Number.safeInteger.natAbs && allFit items
  | .object fields => valuesFit fields
  | .set members => allFit members
  | _ => true
def allFit : List Term → Bool
  | [] => true
  | t :: rest => fits t && allFit rest
def valuesFit : List (Term × Term) → Bool
  | [] => true
  | (_, v) :: rest => fits v && valuesFit rest
end

theorem allFit_iff {ts : List Term} : allFit ts = true ↔ ∀ t ∈ ts, t.fits = true := by
  induction ts with
  | nil => simp [allFit]
  | cons t rest ih => simp [allFit, ih]

theorem valuesFit_iff {fs : List (Term × Term)} : valuesFit fs = true ↔ ∀ f ∈ fs, f.2.fits = true := by
  induction fs with
  | nil => simp [valuesFit]
  | cons f rest ih => simp [valuesFit, ih]

theorem fits_field {fs : List (Term × Term)} {key v : Term} (h : (Term.object fs).fits = true)
    (hv : findField? key fs = some v) : v.fits = true := by
  obtain ⟨k, hk⟩ := mem_of_findField? hv
  exact valuesFit_iff.1 (by simpa [fits] using h) _ hk

theorem fits_element {items : List Term} {i : Nat} {v : Term} (h : (Term.array items).fits = true)
    (hv : items[i]? = some v) : v.fits = true := by
  rw [fits, Bool.and_eq_true] at h
  exact allFit_iff.1 h.2 v (List.mem_of_getElem? hv)

theorem fits_lookup {t key v : Term} (h : t.fits = true) (hv : t.lookup key = some v) : v.fits = true := by
  unfold Term.lookup at hv
  split at hv
  · exact fits_field h hv
  · exact allFit_iff.1 (by simpa [fits] using h) _ (mem_of_findMember? hv)
  · obtain ⟨i, _, hi⟩ := Option.bind_eq_some_iff.1 hv
    exact fits_element h hi
  · cases hv

theorem fits_lookupKeys {t v : Term} {keys : List String} (h : t.fits = true) (hv : t.lookupKeys keys = some v) :
    v.fits = true := by
  induction keys generalizing t with
  | nil =>
    cases hv
    exact h
  | cons key rest ih =>
    obtain ⟨u, hu, hv⟩ := Option.bind_eq_some_iff.1 hv
    exact ih (fits_lookup h hu) hv

theorem fits_child? {t v : Term} {segment : PathSegment} (h : t.fits = true) (hv : t.child? segment = some v) :
    v.fits = true := by
  unfold Term.child? at hv
  split at hv
  · exact fits_field h hv
  · exact fits_element h hv
  · obtain ⟨i, _, hi⟩ := Option.bind_eq_some_iff.1 hv
    exact fits_element h hi
  · cases hv

theorem fits_at? {t v : Term} {path : StorePath} (h : t.fits = true) (hv : t.at? path = some v) : v.fits = true := by
  induction path generalizing t with
  | nil =>
    cases hv
    exact h
  | cons segment rest ih =>
    obtain ⟨u, hu, hv⟩ := Option.bind_eq_some_iff.1 hv
    exact ih (fits_child? h hu) hv

end Term

/-! ## Equal keys -/

/-- Numbers of one value give the same position, as far as positions are exact numbers. -/
theorem Number.position_congr {n n' : Number} (h : n.exact = n'.exact) {i : Nat} (hi : i ≤ safeInteger.natAbs)
    (hn : n.toUnsigned? = some i) : n'.toUnsigned? = some i := by
  simp only [toUnsigned?] at hn
  split at hn
  · next j hj =>
    split at hn
    · next hfits =>
      cases hn
      have hpos : 0 ≤ j := by
        simp only [fitsUnsigned, Bool.and_eq_true, decide_eq_true_eq] at hfits
        exact hfits.1
      have hj' : n'.toInt? = some j := toInt?_of_exact (h ▸ exact_of_toInt? hj) (by omega)
      simp only [toUnsigned?, hj', if_pos hfits]
    · cases hn
  · cases hn

namespace Term

theorem findField?_congr {k k' : Term} (h : (k == k') = true) (fields : List (Term × Term)) :
    findField? k fields = findField? k' fields := by
  induction fields with
  | nil => rfl
  | cons field rest ih => simp only [findField?, cmp_congr k k' field.1 (beq_iff_cmp.1 h), ih]

theorem findMember?_congr {k k' : Term} (h : (k == k') = true) (members : List Term) :
    findMember? k members = findMember? k' members := by
  induction members with
  | nil => rfl
  | cons m rest ih => simp only [findMember?, cmp_congr k k' m (beq_iff_cmp.1 h), ih]

/-- What one key finds in an array, an equal key finds as well. -/
theorem lookup_array {items : List Term} {k k' v : Term} (hfits : items.length ≤ Number.safeInteger.natAbs)
    (h : (k == k') = true) (hv : (Term.array items).lookup k = some v) : (Term.array items).lookup k' = some v := by
  cases k with
  | number n =>
    obtain ⟨n', rfl, hexact⟩ := number_beq_iff.1 h
    obtain ⟨i, hi, hv⟩ := Option.bind_eq_some_iff.1 hv
    have hlt : i < items.length := (List.getElem?_eq_some_iff.1 hv).1
    simp only [lookup, Number.position_congr hexact (by omega) hi, Option.bind_some, hv]
  | _ => cases hv

theorem lookup_congr {t k k' : Term} (ht : t.fits = true) (h : (k == k') = true) : t.lookup k = t.lookup k' := by
  cases t with
  | object fields => simp only [lookup, findField?_congr h]
  | set members => simp only [lookup, findMember?_congr h]
  | array items =>
    have hlength : items.length ≤ Number.safeInteger.natAbs := by
      rw [fits, Bool.and_eq_true, decide_eq_true_eq] at ht
      exact ht.1
    ext v
    exact ⟨lookup_array hlength h, lookup_array hlength (beq_symm h)⟩
  | _ => rfl

/-- Equal keys lead to the same part of a document. -/
theorem follow_congr {keys keys' : List Term} {t : Term} (ht : t.fits = true) (h : (keys == keys') = true) :
    keys.foldlM (fun t key => t.lookup key) t = keys'.foldlM (fun t key => t.lookup key) t := by
  induction keys generalizing keys' t with
  | nil =>
    cases keys' with
    | nil => rfl
    | cons => simp at h
  | cons k rest ih =>
    cases keys' with
    | nil => simp at h
    | cons k' rest' =>
      rw [List.cons_beq_cons, Bool.and_eq_true] at h
      simp only [List.foldlM_cons, lookup_congr ht h.1]
      cases hu : t.lookup k' with
      | none => rfl
      | some u => exact ih (fits_lookup ht hu) h.2

end Term

/-! ## What references stand for -/

namespace Term

theorem cmpList_eq_iff {as bs : List Term} : cmpList as bs = .eq ↔ (as == bs) = true := by
  induction as generalizing bs with
  | nil => cases bs <;> simp [cmpList]
  | cons a as ih =>
    cases bs with
    | nil => simp [cmpList]
    | cons b bs => rw [cmpList, Ordering.then_eq_eq, List.cons_beq_cons, Bool.and_eq_true, beq_iff_cmp, ih]

theorem ref_beq_iff {head : Term} {operands : List Term} {t : Term} :
    (Term.ref head operands == t) = true ↔
      ∃ head' operands', t = .ref head' operands' ∧ (head == head') = true ∧ (operands == operands') = true := by
  rw [beq_iff_cmp]
  constructor
  · intro h
    have hrank := rank_eq_of_cmp h
    cases t <;> simp only [rank, reduceCtorEq] at hrank <;> try omega
    rw [Term.cmp, Ordering.then_eq_eq, cmpList_eq_iff, ← beq_iff_cmp] at h
    exact ⟨_, _, rfl, h⟩
  · rintro ⟨head', operands', rfl, hhead, hoperands⟩
    rw [Term.cmp, Ordering.then_eq_eq, cmpList_eq_iff, ← beq_iff_cmp]
    exact ⟨hhead, hoperands⟩

theorem var_beq_iff {x : String} {t : Term} : (Term.var x == t) = true ↔ t = .var x := by
  rw [beq_iff_cmp]
  constructor
  · intro h
    have hrank := rank_eq_of_cmp h
    cases t <;> simp only [rank, reduceCtorEq] at hrank <;> try omega
    rw [Term.cmp, Std.LawfulEqCmp.compare_eq_iff_eq] at h
    rw [h]
  · rintro rfl
    exact beq_iff_cmp.1 (beq_refl _)

end Term

namespace RefChain

/-- Equal operands start with the same keys, and go on with equal operands. -/
theorem splitKeys_congr {operands operands' : List Term} (h : (operands == operands') = true) :
    (splitKeys operands).1 = (splitKeys operands').1 ∧ ((splitKeys operands).2 == (splitKeys operands').2) = true := by
  induction operands generalizing operands' with
  | nil =>
    cases operands' with
    | nil => exact ⟨rfl, h⟩
    | cons => simp at h
  | cons t rest ih =>
    cases operands' with
    | nil => simp at h
    | cons t' rest' =>
      have hparts := h
      rw [List.cons_beq_cons, Bool.and_eq_true] at hparts
      by_cases hstring : ∃ x, t = .string x
      · obtain ⟨x, rfl⟩ := hstring
        obtain rfl := Term.string_beq_iff.1 hparts.1
        obtain ⟨hkeys, hrest⟩ := ih hparts.2
        exact ⟨congrArg (x :: ·) hkeys, hrest⟩
      · have hstring' : ∀ x, t' ≠ .string x := by
          rintro x rfl
          exact hstring ⟨x, Term.string_beq_iff.1 (Term.beq_symm hparts.1)⟩
        rw [splitKeys.eq_2 _ fun x _ he => hstring ⟨x, (List.cons.inj he).1⟩,
          splitKeys.eq_2 _ fun x _ he => hstring' x (List.cons.inj he).1]
        exact ⟨rfl, h⟩

/-- Equal references have the same root and the same keys. -/
theorem ofTerm?_congr {r r' : Term} (h : (r == r') = true) {c : RefChain} (hc : ofTerm? r = some c) :
    ∃ rest, ofTerm? r' = some { c with rest := rest } ∧ (c.rest == rest) = true := by
  unfold ofTerm? at hc
  split at hc
  · next root operands =>
    obtain ⟨head', operands', rfl, hhead, hoperands⟩ := Term.ref_beq_iff.1 h
    obtain rfl := Term.var_beq_iff.1 hhead
    obtain ⟨hkeys, hrest⟩ := splitKeys_congr hoperands
    cases hc
    exact ⟨(splitKeys operands').2, by simp only [ofTerm?, hkeys], hrest⟩
  · cases hc

end RefChain

namespace Env

/-- The document that the keys of a reference lead to, where no rule has to do with it. -/
def baseOf (env : Env) (input : Option Term) (chain : RefChain) : Option Term :=
  match chain.root with
  | "input" => input.bind fun doc => doc.lookupKeys chain.keys
  | "data" => env.root.at? (StorePath.ofKeys chain.keys)
  | _ => none

/-- What a reference stands for, where no rule has to do with it. -/
def valueOf (env : Env) (input : Option Term) (reference : Term) : Option Term :=
  (RefChain.ofTerm? reference).bind fun chain =>
    (env.baseOf input chain).bind fun doc => chain.rest.foldlM (fun t key => t.lookup key) doc

variable {env : Env} {input : Option Term}

theorem fits_baseOf (hroot : env.root.fits = true) (hinput : ∀ t, input = some t → t.fits = true) {chain : RefChain}
    {doc : Term} (h : env.baseOf input chain = some doc) : doc.fits = true := by
  unfold baseOf at h
  split at h
  · obtain ⟨t, ht, hdoc⟩ := Option.bind_eq_some_iff.1 h
    exact Term.fits_lookupKeys (hinput t ht) hdoc
  · exact Term.fits_at? hroot h
  · cases h

/-- Equal references stand for the same. -/
theorem valueOf_congr (hroot : env.root.fits = true) (hinput : ∀ t, input = some t → t.fits = true) {r r' : Term}
    (h : (r == r') = true) : env.valueOf input r = env.valueOf input r' := by
  cases hc : RefChain.ofTerm? r with
  | some c =>
    obtain ⟨rest, hc', hrest⟩ := RefChain.ofTerm?_congr h hc
    have hbase : env.baseOf input { c with rest := rest } = env.baseOf input c := rfl
    simp only [valueOf, hc, hc', Option.bind_some, hbase]
    cases hdoc : env.baseOf input c with
    | none => rfl
    | some doc => exact Term.follow_congr (fits_baseOf hroot hinput hdoc) hrest
  | none =>
    cases hc' : RefChain.ofTerm? r' with
    | none => simp only [valueOf, hc, hc']
    | some c' =>
      obtain ⟨_, hsome, _⟩ := RefChain.ofTerm?_congr (Term.beq_symm h) hc'
      rw [hc] at hsome
      cases hsome

/-- The references of an index are resolved without rules. -/
theorem run_resolve (rules : RuleSemantics) (hfailing : env.failing = []) {r : Term}
    (hr : Constraint.isIndexRef env.policy.overlaps r = true) {s : State} (hdata : s.scope.data = []) :
    ∃ s', (env.resolve rules r).run s = (.ok (env.valueOf s.scope.input r), s') ∧ s.Quiet s' := by
  unfold Constraint.isIndexRef at hr
  split at hr
  · next root operands =>
    simp only [Bool.and_eq_true, Bool.or_eq_true, beq_iff_eq, Bool.not_eq_true'] at hr
    rcases hr.2 with rfl | ⟨rfl, hplain⟩
    · exact ⟨s, rfl, .refl s⟩
    · rw [Policy.overlaps, Bool.or_eq_false_iff, Policy.hasBelow_eq, Bool.not_eq_false', List.isEmpty_iff] at hplain
      have hcover : env.policy.covering? (RefChain.splitKeys operands).1 = none := by
        simpa [Constraint.leadingKeys] using hplain.1
      refine ⟨reading (RefChain.splitKeys operands).1 s, ?_, quiet_reading _ s⟩
      simp only [resolve, RefChain.ofTerm?, Eval.run_bind, run_document_plain env rules _ hdata,
        run_baseDocument_stored env rules hfailing hcover hplain.2]
      rfl
  · cases hr

end Env

/-! ## Hits -/

namespace IndexTable

variable {value : Term → Option Term} {found : Term → List (Term × List Nat) → List Nat} {weight : Term → Term → Nat}

/-- The rules, repeated, that a table finds where its references stand for given values. -/
def hitsOf (found : Term → List (Term × List Nat) → List Nat) (value : Term → Option Term) (table : IndexTable) :
    List Nat :=
  table.flatMap fun entry => ((value entry.1).map (found · entry.2)).getD []

/-- A rule added to the bucket of a value is found as many times more as the value weighs. -/
def Weighs (found : Term → List (Term × List Nat) → List Nat) (weight : Term → Term → Nat) : Prop :=
  ∀ w v rule buckets i, (found w (addToBucket v rule buckets)).count i =
    (found w buckets).count i + if i = rule then weight w v else 0

theorem rulesFor_cons (w v : Term) (rules : List Nat) (rest : List (Term × List Nat)) :
    rulesFor w ((v, rules) :: rest) = if v == w then rules else rulesFor w rest := by
  simp only [rulesFor, List.find?_cons]
  cases v == w <;> rfl

theorem count_rulesFor (w v : Term) (rule : Nat) (buckets : List (Term × List Nat)) (i : Nat) :
    (rulesFor w (addToBucket v rule buckets)).count i =
      (rulesFor w buckets).count i + if i = rule then (if v == w then 1 else 0) else 0 := by
  have hone : ([rule] : List Nat).count i = if i = rule then 1 else 0 := by
    rw [List.count_singleton]
    simp only [beq_iff_eq, @eq_comm Nat rule]
  induction buckets with
  | nil =>
    rw [addToBucket, rulesFor_cons]
    cases v == w
    · simp [rulesFor]
    · simpa [rulesFor] using hone
  | cons bucket rest ih =>
    obtain ⟨u, rules⟩ := bucket
    rw [addToBucket]
    split
    · next huv =>
      rw [rulesFor_cons, rulesFor_cons, Term.beq_congr_left huv w]
      split
      · rw [List.count_append, hone]
      · simp
    · next huv =>
      rw [rulesFor_cons, rulesFor_cons]
      split
      · next huw =>
        -- the bucket of `u` is the one asked for, so that of `v` is another
        have hvw : (v == w) = false := by
          rw [Bool.eq_false_iff]
          exact fun hvw => huv (Term.beq_trans huw (Term.beq_symm hvw))
        simp [hvw]
      · exact ih

theorem weighs_equals : Weighs RuleIndex.equalsHits fun w v => if v == w then 1 else 0 :=
  fun w v rule buckets i => count_rulesFor w v rule buckets i

theorem weighs_members : Weighs RuleIndex.memberHits fun w v => (RuleIndex.elements w).countP (v == ·) := by
  intro w v rule buckets i
  simp only [RuleIndex.memberHits]
  induction RuleIndex.elements w with
  | nil => simp
  | cons e rest ih =>
    rw [List.flatMap_cons, List.flatMap_cons, List.count_append, List.count_append, count_rulesFor, ih, List.countP_cons]
    split <;> omega

/-- What a value weighs for a reference. -/
def weightOf (weight : Term → Term → Nat) (value : Term → Option Term) (reference v : Term) : Nat :=
  ((value reference).map (weight · v)).getD 0

/-- A rule added to a table is found as many times more as its value weighs, whatever the table holds. -/
theorem count_hitsOf_add (hfound : Weighs found weight) (hempty : ∀ w, found w [] = [])
    (hvalue : ∀ r r', (r == r') = true → value r = value r') (reference v : Term) (rule : Nat) (table : IndexTable)
    (i : Nat) :
    (hitsOf found value (add reference v rule table)).count i =
      (hitsOf found value table).count i + if i = rule then weightOf weight value reference v else 0 := by
  have hentry : ∀ (r : Term) (buckets : List (Term × List Nat)), value r = value reference →
      (((value r).map (found · (addToBucket v rule buckets))).getD []).count i =
        (((value r).map (found · buckets)).getD []).count i + if i = rule then weightOf weight value reference v else 0 := by
    intro r buckets hr
    rw [weightOf, hr]
    cases value reference with
    | none => simp
    | some w => simpa using hfound w v rule buckets i
  have hnew := hentry reference [] rfl
  have hnone : ((value reference).map (found · [])).getD [] = [] := by
    cases value reference <;> simp [hempty]
  rw [hnone, List.count_nil, Nat.zero_add, addToBucket] at hnew
  induction table with
  | nil => simpa [add, hitsOf] using hnew
  | cons entry rest ih =>
    obtain ⟨r, buckets⟩ := entry
    rw [add]
    cases hcmp : reference.cmp r with
    | lt =>
      simp only [hitsOf, List.flatMap_cons, List.count_append] at hnew ⊢
      omega
    | eq =>
      have hr := hentry r buckets (hvalue reference r (Term.beq_iff_cmp.2 hcmp)).symm
      simp only [hitsOf, List.flatMap_cons, List.count_append] at hr ⊢
      omega
    | gt =>
      simp only [hitsOf, List.flatMap_cons, List.count_append] at ih ⊢
      omega

end IndexTable

/-! ## Rules -/

namespace Constraint

variable {overlaps : DataPath → Bool}

def reference : Constraint → Term
  | .equals r _ => r
  | .member r _ => r

/-- How often a constraint holds where references stand for given values. A membership holds for every element. -/
def weight (value : Term → Option Term) : Constraint → Nat
  | .equals r v => IndexTable.weightOf (fun w v => if v == w then 1 else 0) value r v
  | .member r v => IndexTable.weightOf (fun w v => (RuleIndex.elements w).countP (v == ·)) value r v

theorem isIndexRef_ofExpr? {e : Expr} {c : Constraint} (h : ofExpr? overlaps e = some c) :
    isIndexRef overlaps c.reference = true := by
  unfold ofExpr? at h
  split at h
  · cases h
  · split at h
    all_goals grind [reference]

theorem mem_of_mem_foldl_addDistinct {cs : List Constraint} {start : List Constraint} {c : Constraint}
    (h : c ∈ cs.foldl addDistinct start) : c ∈ start ∨ c ∈ cs := by
  induction cs generalizing start with
  | nil => exact .inl h
  | cons d rest ih =>
    rcases ih h with h | h
    · rw [addDistinct] at h
      split at h
      · exact .inl h
      · rcases List.mem_append.1 h with h | h
        · exact .inl h
        · exact .inr (List.mem_cons.2 (.inl (List.mem_singleton.1 h)))
    · exact .inr (List.mem_cons_of_mem _ h)

/-- Constraints are on references that no rule has to do with. -/
theorem isIndexRef_ofRule {r : Rule} {c : Constraint} (h : c ∈ ofRule overlaps r) :
    isIndexRef overlaps c.reference = true := by
  rw [ofRule] at h
  split at h
  · cases h
  · have hmem := (mem_of_mem_foldl_addDistinct h).resolve_left List.not_mem_nil
    obtain ⟨e, _, he⟩ := List.mem_filterMap.1 hmem
    exact isIndexRef_ofExpr? he

/-- How often the constraints of a rule hold. -/
def score (overlaps : DataPath → Bool) (value : Term → Option Term) (r : Rule) : Nat :=
  ((ofRule overlaps r).map (weight value)).sum

end Constraint

theorem IndexTable.mem_references_add {reference v r : Term} {rule : Nat} {table : IndexTable}
    (h : r ∈ (IndexTable.add reference v rule table).map Prod.fst) : r = reference ∨ r ∈ table.map Prod.fst := by
  induction table with
  | nil => exact .inl (by simpa [add] using h)
  | cons first rest ih =>
    obtain ⟨r', buckets⟩ := first
    rw [add] at h
    split at h <;> simp only [List.map_cons, List.mem_cons] at h ⊢
    · exact h
    · exact .inr h
    · rcases h with h | h
      · exact .inr (.inl h)
      · exact (ih h).imp_right .inr

theorem IndexTable.add_ne_nil (reference v : Term) (rule : Nat) (table : IndexTable) :
    IndexTable.add reference v rule table ≠ [] := by
  cases table with
  | nil => simp [add]
  | cons first rest =>
    rw [add]
    split <;> simp

namespace RuleIndex

variable {overlaps : DataPath → Bool} {value : Term → Option Term} {index : RuleIndex} {ruleList : List Rule}

/-- The rules, repeated, whose constraints hold where references stand for given values. -/
def satisfied (value : Term → Option Term) (index : RuleIndex) : List Nat :=
  IndexTable.hitsOf equalsHits value index.equals ++ IndexTable.hitsOf memberHits value index.members

/-- The references of an index. -/
def references (index : RuleIndex) : List Term := index.equals.map Prod.fst ++ index.members.map Prod.fst

theorem count_satisfied_addConstraint (hvalue : ∀ r r', (r == r') = true → value r = value r') (rule : Nat)
    (index : RuleIndex) (c : Constraint) (i : Nat) :
    ((addConstraint rule index c).satisfied value).count i =
      (index.satisfied value).count i + if i = rule then c.weight value else 0 := by
  cases c with
  | equals r v =>
    have hadd := IndexTable.count_hitsOf_add IndexTable.weighs_equals (fun _ => rfl) hvalue r v rule index.equals i
    simp only [satisfied, addConstraint, List.count_append, Constraint.weight] at hadd ⊢
    omega
  | member r v =>
    have hadd := IndexTable.count_hitsOf_add IndexTable.weighs_members (fun w => by simp [memberHits, IndexTable.rulesFor])
      hvalue r v rule index.members i
    simp only [satisfied, addConstraint, List.count_append, Constraint.weight] at hadd ⊢
    omega

theorem mem_references_addConstraint {rule : Nat} {c : Constraint} {r : Term}
    (h : r ∈ (addConstraint rule index c).references) : r = c.reference ∨ r ∈ index.references := by
  cases c with
  | equals reference v =>
    rcases List.mem_append.1 h with h | h
    · exact (IndexTable.mem_references_add h).imp_right (List.mem_append_left _)
    · exact .inr (List.mem_append_right _ h)
  | member reference v =>
    rcases List.mem_append.1 h with h | h
    · exact .inr (List.mem_append_left _ h)
    · exact (IndexTable.mem_references_add h).imp_right (List.mem_append_right _)

theorem isEmpty_addConstraint (rule : Nat) (index : RuleIndex) (c : Constraint) :
    (addConstraint rule index c).isEmpty = false := by
  cases c <;> simp [addConstraint, isEmpty, IndexTable.add_ne_nil]

/-- What an index of a list of rules holds. -/
structure Indexes (overlaps : DataPath → Bool) (value : Term → Option Term) (ruleList : List Rule) (index : RuleIndex) :
    Prop where
  counts : index.counts = ruleList.map fun r => (Constraint.ofRule overlaps r).length
  satisfied : ∀ i, (index.satisfied value).count i = (ruleList[i]?.map (Constraint.score overlaps value)).getD 0
  references : ∀ r ∈ index.references, ∃ rule ∈ ruleList, ∃ c ∈ Constraint.ofRule overlaps rule, c.reference = r
  empty : index.isEmpty = true → ∀ r ∈ ruleList, Constraint.ofRule overlaps r = []

theorem indexes_nil (overlaps : DataPath → Bool) (value : Term → Option Term) : Indexes overlaps value [] {} :=
  ⟨rfl, fun _ => rfl, nofun, fun _ => nofun⟩

/-- Constraints added for a rule are counted for that rule. -/
theorem addConstraints (hvalue : ∀ r r', (r == r') = true → value r = value r') (rule : Nat) (cs : List Constraint)
    (index : RuleIndex) :
    (∀ i, ((cs.foldl (addConstraint rule) index).satisfied value).count i =
      (index.satisfied value).count i + if i = rule then (cs.map (Constraint.weight value)).sum else 0) ∧
    (∀ r ∈ (cs.foldl (addConstraint rule) index).references, r ∈ cs.map Constraint.reference ∨ r ∈ index.references) ∧
    ((cs.foldl (addConstraint rule) index).isEmpty = true → cs = [] ∧ index.isEmpty = true) ∧
    (cs.foldl (addConstraint rule) index).counts = index.counts := by
  induction cs generalizing index with
  | nil => exact ⟨fun i => by simp, fun r h => .inr h, fun h => ⟨rfl, h⟩, rfl⟩
  | cons c rest ih =>
    obtain ⟨hcount, hreferences, hempty, hcounts⟩ := ih (addConstraint rule index c)
    refine ⟨fun i => ?_, fun r hr => ?_, fun h => ?_, ?_⟩
    · rw [List.foldl_cons, hcount, count_satisfied_addConstraint hvalue, List.map_cons, List.sum_cons]
      split <;> omega
    · rcases hreferences r hr with hr | hr
      · exact .inl (List.mem_cons_of_mem _ hr)
      · rcases mem_references_addConstraint hr with rfl | hr
        · exact .inl List.mem_cons_self
        · exact .inr hr
    · have := (hempty h).2
      rw [isEmpty_addConstraint] at this
      cases this
    · rw [List.foldl_cons, hcounts]
      cases c <;> rfl

theorem Indexes.addRule (hvalue : ∀ r r', (r == r') = true → value r = value r')
    (h : Indexes overlaps value ruleList index) (rule : Rule) :
    Indexes overlaps value (ruleList ++ [rule]) (addRule overlaps index rule) := by
  obtain ⟨hcount, hreferences, hempty, hcounts⟩ :=
    addConstraints hvalue index.counts.length (Constraint.ofRule overlaps rule) index
  have hlength : index.counts.length = ruleList.length := by rw [h.counts, List.length_map]
  refine ⟨?_, fun i => ?_, fun r hr => ?_, fun he r hr => ?_⟩
  · refine (congrArg (· ++ [(Constraint.ofRule overlaps rule).length]) hcounts).trans ?_
    rw [h.counts, List.map_append, List.map_singleton]
  · refine (hcount i).trans ?_
    rw [h.satisfied, hlength]
    rcases Nat.lt_trichotomy i ruleList.length with hi | rfl | hi
    · rw [List.getElem?_append_left hi, if_neg (by omega), Nat.add_zero]
    · simp [Constraint.score]
    · rw [List.getElem?_eq_none (by omega), List.getElem?_eq_none (by simp; omega), if_neg (by omega)]
      rfl
  · rcases hreferences r hr with hr | hr
    · obtain ⟨c, hc, hr⟩ := List.mem_map.1 hr
      exact ⟨rule, List.mem_append_right _ (List.mem_singleton_self rule), c, hc, hr⟩
    · obtain ⟨known, hknown, hr⟩ := h.references r hr
      exact ⟨known, List.mem_append_left _ hknown, hr⟩
  · obtain ⟨hnone, hbefore⟩ := hempty he
    rcases List.mem_append.1 hr with hr | hr
    · exact h.empty hbefore r hr
    · rwa [List.mem_singleton.1 hr]

theorem indexes_build (hvalue : ∀ r r', (r == r') = true → value r = value r') (ruleList : List Rule) :
    Indexes overlaps value ruleList (build overlaps ruleList) := by
  have hfrom : ∀ (rest before : List Rule) (index : RuleIndex), Indexes overlaps value before index →
      Indexes overlaps value (before ++ rest) (rest.foldl (RuleIndex.addRule overlaps) index) := by
    intro rest
    induction rest with
    | nil =>
      intro before index h
      rwa [List.append_nil]
    | cons rule rest ih =>
      intro before index h
      simpa using ih (before ++ [rule]) _ (h.addRule hvalue rule)
  exact hfrom ruleList [] {} (indexes_nil overlaps value)

/-- The rules at the positions where a test holds are the rules for which it holds. -/
theorem filterMap_positions {γ : Type} (all : List γ) (g : γ → Nat) (p : Nat → Nat) (selects : γ → Bool)
    (h : ∀ i x, all[i]? = some x → (p i == g x) = selects x) :
    ((((all.map g).zipIdx).filter fun (count, i) => p i == count).map Prod.snd).filterMap (all[·]?) =
      all.filter selects := by
  have hfrom : ∀ (rest : List γ) (n : Nat), (∀ i, all[n + i]? = rest[i]?) →
      (((((rest.map g).zipIdx n).filter fun (count, i) => p i == count).map Prod.snd).filterMap (all[·]?)) =
        rest.filter selects := by
    intro rest
    induction rest with
    | nil => exact fun _ _ => rfl
    | cons x rest ih =>
      intro n hn
      have hx : all[n]? = some x := by simpa using hn 0
      have hrest := ih (n + 1) fun i => by simpa [Nat.add_assoc, Nat.add_comm 1 i] using hn (i + 1)
      simp only [List.map_cons, List.zipIdx_cons, List.filter_cons, h n x hx]
      split
      · rw [List.map_cons, List.filterMap_cons_some hx, hrest]
      · exact hrest
  exact hfrom all 0 fun i => by rw [Nat.zero_add]

end RuleIndex

/-! ## Candidates -/

namespace Eval

/-- A computation gives a value and leaves nothing behind, or it ends in an error of a kind. -/
def Settles (m : Eval β) (fails : EvalError → Prop) (b : β) (s : State) : Prop :=
  (∃ s', m.run s = (.ok b, s') ∧ s.Quiet s') ∨ ∃ e s', m.run s = (.error e, s') ∧ fails e

theorem Settles.pure {fails : EvalError → Prop} (b : β) (s : State) : (Pure.pure b : Eval β).Settles fails b s :=
  .inl ⟨s, rfl, .refl s⟩

theorem Settles.bind {m : Eval β} {f : β → Eval γ} {fails : EvalError → Prop} {b : β} {c : γ} {s : State}
    (hm : m.Settles fails b s) (hf : ∀ s', s.Quiet s' → (f b).Settles fails c s') : (m >>= f).Settles fails c s := by
  rcases hm with ⟨s₁, hrun, hquiet⟩ | ⟨e, s₁, hrun, hfails⟩
  · rcases hf s₁ hquiet with ⟨s₂, hrun', hquiet'⟩ | ⟨e, s₂, hrun', hfails⟩
    · exact .inl ⟨s₂, by simp only [run_bind, hrun, hrun'], hquiet.trans hquiet'⟩
    · exact .inr ⟨e, s₂, by simp only [run_bind, hrun, hrun'], hfails⟩
  · exact .inr ⟨e, s₁, by simp only [run_bind, hrun], hfails⟩

end Eval

namespace Env

variable {env : Env} {fails : EvalError → Prop} {value : Term → Option Term}

/-- A rule is selected when as many of its constraints hold as it has. -/
def selectsBy (env : Env) (value : Term → Option Term) (r : Rule) : Bool :=
  Constraint.score env.policy.overlaps value r == (Constraint.ofRule env.policy.overlaps r).length

/-- The rules that are selected where no data is overridden; all of them without an index. -/
def selects (env : Env) (input : Option Term) (r : Rule) : Bool :=
  !env.options.indexed || env.selectsBy (env.valueOf input) r

theorem settles_hits {holds : State → Prop} (rules : RuleSemantics) (hkeep : ∀ {s s'}, holds s → s.Quiet s' → holds s')
    (found : Term → List (Term × List Nat) → List Nat) {table : IndexTable}
    (hresolve : ∀ r ∈ table.map Prod.fst, ∀ s, holds s → (env.resolve rules r).Settles fails (value r) s) {s : State}
    (hs : holds s) :
    Eval.Settles (ExceptT.mk (RuleIndex.hits found (fun r => (env.resolve rules r).run) table)) fails
      (IndexTable.hitsOf found value table) s := by
  induction table generalizing s with
  | nil => exact .pure _ s
  | cons entry rest ih =>
    rw [List.map_cons, List.forall_mem_cons] at hresolve
    rw [Coupling.hits_cons]
    exact (hresolve.1 s hs).bind fun s' hquiet => (ih hresolve.2 (hkeep hs hquiet)).bind fun s'' _ => .pure _ s''

/-- The candidates among the rules of a set are those that are selected, each for itself, unless a reference of the
index cannot be resolved. -/
theorem settles_candidates (holds : State → Prop) (rules : RuleSemantics) (hindexed : env.options.indexed = true)
    (hkeep : ∀ {s s'}, holds s → s.Quiet s' → holds s') (hvalue : ∀ r r', (r == r') = true → value r = value r')
    (rs : RuleSet) (hresolve : ∀ rule ∈ rs.rules, ∀ c ∈ Constraint.ofRule env.policy.overlaps rule, ∀ s, holds s →
      (env.resolve rules c.reference).Settles fails (value c.reference) s) {s : State} (hs : holds s) :
    (env.candidates rules rs).Settles fails (rs.rules.filter (env.selectsBy value)) s := by
  have hindex : RuleIndex.Indexes env.policy.overlaps value rs.rules (RuleIndex.build env.policy.overlaps rs.rules) :=
    RuleIndex.indexes_build hvalue rs.rules
  have hselects : ∀ i r, rs.rules[i]? = some r →
      (((RuleIndex.build env.policy.overlaps rs.rules).satisfied value).count i ==
        (Constraint.ofRule env.policy.overlaps r).length) = env.selectsBy value r := by
    intro i r hr
    simp only [hindex.satisfied, hr, selectsBy, Option.map_some, Option.getD_some]
  have hreferences : ∀ r ∈ (RuleIndex.build env.policy.overlaps rs.rules).references, ∀ s, holds s →
      (env.resolve rules r).Settles fails (value r) s := by
    intro r hr
    obtain ⟨rule, hrule, c, hc, rfl⟩ := hindex.references r hr
    exact hresolve rule hrule c hc
  rw [candidates]
  split
  · next hall =>
    have hempty : (RuleIndex.build env.policy.overlaps rs.rules).isEmpty = true := by simpa [hindexed] using hall
    have heq : rs.rules.filter (env.selectsBy value) = rs.rules := by
      refine List.filter_eq_self.2 fun r hr => ?_
      simp [selectsBy, Constraint.score, hindex.empty hempty r hr]
    rw [heq]
    exact .pure _ s
  · have hpositions := RuleIndex.filterMap_positions rs.rules _ _ (env.selectsBy value) hselects
    simp only [Coupling.candidates_eq, bind_assoc, pure_bind, hindex.counts]
    refine (settles_hits rules hkeep _ (fun r hr => hreferences r (List.mem_append_left _ hr)) hs).bind
      fun s₁ hquiet => ?_
    refine (settles_hits rules hkeep _ (fun r hr => hreferences r (List.mem_append_right _ hr)) (hkeep hs hquiet)).bind
      fun s₂ _ => ?_
    rw [← hpositions]
    exact .pure _ s₂

/-- Where no data is overridden every reference of an index is resolved, so the candidates are those rules that are
selected. -/
theorem run_candidates (rules : RuleSemantics) (hfailing : env.failing = []) (rs : RuleSet) {s : State}
    (hdata : s.scope.data = []) (hroot : env.root.fits = true) (hinput : ∀ t, s.scope.input = some t → t.fits = true) :
    ∃ s', (env.candidates rules rs).run s = (.ok (rs.rules.filter (env.selects s.scope.input)), s') ∧ s.Quiet s' := by
  cases hindexed : env.options.indexed with
  | false =>
    have hall : rs.rules.filter (env.selects s.scope.input) = rs.rules :=
      List.filter_eq_self.2 fun r _ => by rw [selects, hindexed]; rfl
    exact ⟨s, by rw [hall, candidates, hindexed]; rfl, .refl s⟩
  | true =>
    have hsettles : (env.candidates rules rs).Settles (fun _ => False)
        (rs.rules.filter (env.selectsBy (env.valueOf s.scope.input))) s := by
      refine settles_candidates (fun t => t.scope = s.scope) rules hindexed ?_
        (fun _ _ => valueOf_congr hroot hinput) rs (fun rule _ c hc t ht => .inl ?_) rfl
      · exact fun ht hquiet => (congrArg Frame.scope hquiet.frame).trans ht
      · obtain ⟨t', hrun, hquiet⟩ := run_resolve rules hfailing (Constraint.isIndexRef_ofRule hc)
          (s := t) (ht ▸ hdata)
        exact ⟨t', ht ▸ hrun, hquiet⟩
    have heq : env.selects s.scope.input = env.selectsBy (env.valueOf s.scope.input) := by
      funext r
      rw [selects, hindexed]
      rfl
    rw [heq]
    refine hsettles.resolve_right ?_
    rintro ⟨_, _, _, hfalse⟩
    exact hfalse

end Env
end PolicyEngine
