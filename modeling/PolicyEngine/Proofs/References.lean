import PolicyEngine.Proofs.Addresses
import PolicyEngine.Proofs.Overlaying
import PolicyEngine.Proofs.Walks

/-!
References of an index beside references that are evaluated. An index resolves a reference at once: it takes the document
at the keys that the reference begins with, with the overrides laid over it, and follows the other operands in it. The
evaluator follows the operands one by one, through the store or through a document under overrides. In documents from
JSON both find the same, as long as no operand is the text of a position or an integer that not every representation of
a number stands for.
-/
namespace PolicyEngine

open Term (Same)

/-! ## Plain references -/

/-- A number whose value every representation stands for, if it is an integer. -/
def Number.isTrusted (n : Number) : Bool :=
  match n.exact with
  | .finite r => decide (r ≤ (safeInteger : Int))
  | _ => true

theorem Number.toUnsigned?_congr_of_trusted {n n' : Number} (hn : n.isTrusted = true) (h : n.exact = n'.exact) :
    n.toUnsigned? = n'.toUnsigned? := by
  have hkept : KeptAlike fitsUnsigned n n' := by
    refine .inr fun i hi hfits => ?_
    rw [isTrusted, hi] at hn
    have hle : (i : Rat) ≤ (safeInteger : Int) := of_decide_eq_true hn
    rw [Int.cast_le] at hle
    simp only [fitsUnsigned, Bool.and_eq_true, decide_eq_true_eq] at hfits
    omega
  rw [toUnsigned?_eq, toUnsigned?_eq, filter_toInt?_congr hkept h]

namespace Term

/-- A key under which every collection holds the same as under its address in the store, and under every equal key. -/
def isPlainKey : Term → Bool
  | .string text => (positionOfKey? text).isNone
  | .number n => n.isTrusted
  | t => t.isScalar

/-- A reference all of whose operands are plain keys. -/
def isPlainRef : Term → Bool
  | .ref _ operands => operands.all isPlainKey
  | _ => false

variable {key key' t : Term} {keys keys' : List Term}

theorem ground_of_isScalar (h : t.isScalar = true) : t.isGround = true ∧ t.needsEval = false := by
  cases t <;> first | exact ⟨rfl, rfl⟩ | cases h

theorem isScalar_of_isPlainKey (h : key.isPlainKey = true) : key.isScalar = true := by
  cases key <;> first | rfl | exact h

theorem position_of_isPlainKey (h : key.isPlainKey = true) :
    ∀ text, key = .string text → positionOfKey? text = none := by
  rintro text rfl
  exact Option.isNone_iff_eq_none.1 h

theorem isPlainKey_congr (h : Same key key') : key.isPlainKey = key'.isPlainKey := by
  have hrank := h.rank_eq
  cases key with
  | string text => rw [string_beq_iff.1 h]
  | number n =>
    obtain ⟨n', rfl, hexact⟩ := number_beq_iff.1 h
    simp only [isPlainKey, Number.isTrusted, hexact]
  | _ => cases key' <;> simp only [rank, reduceCtorEq] at hrank <;> first | omega | rfl

theorem all_isPlainKey_congr (h : (keys == keys') = true) : keys.all isPlainKey = keys'.all isPlainKey := by
  induction keys generalizing keys' with
  | nil => cases keys' <;> simp_all
  | cons key rest ih =>
    cases keys' with
    | nil => simp at h
    | cons key' rest' =>
      rw [List.cons_beq_cons, Bool.and_eq_true] at h
      rw [List.all_cons, List.all_cons, isPlainKey_congr h.1, ih h.2]

theorem isPlainRef_congr {r r' : Term} (h : Same r r') : r.isPlainRef = r'.isPlainRef := by
  have hrank := h.rank_eq
  cases r with
  | ref head operands =>
    obtain ⟨head', operands', rfl, -, hoperands⟩ := ref_beq_iff.1 h
    exact all_isPlainKey_congr hoperands
  | _ => cases r' <;> simp only [rank, reduceCtorEq] at hrank <;> first | omega | rfl

/-! ### Following keys -/

/-- The part of a document that keys lead to, one after the other. -/
def follow (keys : List Term) (t : Term) : Option Term := keys.foldlM (fun t key => t.lookup key) t

theorem follow_cons (key : Term) (rest : List Term) (t : Term) :
    t.follow (key :: rest) = (t.lookup key).bind (·.follow rest) := rfl

theorem follow_strings (path : List String) (rest : List Term) (t : Term) :
    t.follow (path.map .string ++ rest) = (t.lookupKeys path).bind (·.follow rest) := by
  induction path generalizing t with
  | nil => rfl
  | cons key path ih =>
    rw [List.map_cons, List.cons_append, follow_cons, lookupKeys, Option.bind_assoc]
    exact Option.bind_congr fun u _ => ih u

theorem lookup_congr_of_plain (hkey : key.isPlainKey = true) (h : Same key key') (t : Term) :
    t.lookup key = t.lookup key' := by
  have hrank := h.rank_eq
  cases t with
  | object fields => simp only [lookup, findField?_congr h]
  | set members => simp only [lookup, findMember?_congr h]
  | array items =>
    cases key with
    | number n =>
      obtain ⟨n', rfl, hexact⟩ := number_beq_iff.1 h
      simp only [lookup, Number.toUnsigned?_congr_of_trusted hkey hexact]
    | _ => cases key' <;> simp only [rank, reduceCtorEq] at hrank <;> first | omega | rfl
  | _ => rfl

/-- Equal plain keys lead to the same part of every document. -/
theorem follow_congr_of_plain (hkeys : keys.all isPlainKey = true) (h : (keys == keys') = true) (t : Term) :
    t.follow keys = t.follow keys' := by
  induction keys generalizing keys' t with
  | nil => cases keys' <;> simp_all
  | cons key rest ih =>
    cases keys' with
    | nil => simp at h
    | cons key' rest' =>
      rw [List.all_cons, Bool.and_eq_true] at hkeys
      rw [List.cons_beq_cons, Bool.and_eq_true] at h
      rw [follow_cons, follow_cons, lookup_congr_of_plain hkeys.1 h.1]
      exact Option.bind_congr fun u _ => ih hkeys.2 h.2 u

/-- In a document from JSON, the path of plain keys leads where the keys lead. -/
theorem IsJson.at?_ofKeys (h : t.IsJson) {path : DataPath} (hpath : ∀ key ∈ path, positionOfKey? key = none) :
    t.at? (StorePath.ofKeys path) = t.lookupKeys path := by
  induction path generalizing t with
  | nil => rfl
  | cons key rest ih =>
    rw [List.forall_mem_cons] at hpath
    have hchild : t.child? (.key key) = t.lookup (.string key) := by
      refine h.child?_eq_lookup ?_ rfl
      rintro text htext
      cases htext
      exact hpath.1
    show (t.child? (.key key)).bind (·.at? (StorePath.ofKeys rest)) = _
    rw [hchild, lookupKeys]
    refine Option.bind_congr fun u hu => ih ?_ hpath.2
    exact h.child? (hchild.trans hu)

end Term

namespace RefChain

theorem splitKeys_append (operands : List Term) :
    (splitKeys operands).1.map Term.string ++ (splitKeys operands).2 = operands := by
  induction operands with
  | nil => rfl
  | cons t rest ih =>
    by_cases hstring : ∃ text, t = .string text
    · obtain ⟨text, rfl⟩ := hstring
      simp only [splitKeys, List.map_cons, List.cons_append, ih]
    · rw [splitKeys.eq_2 _ fun text _ he => hstring ⟨text, (List.cons.inj he).1⟩]
      rfl

theorem splitKeys_strings (path : List String) (operands : List Term) :
    splitKeys (path.map .string ++ operands) = (path ++ (splitKeys operands).1, (splitKeys operands).2) := by
  induction path with
  | nil => rfl
  | cons key path ih => simp only [List.map_cons, List.cons_append, splitKeys, ih]

/-- The parts of a list of plain keys are plain. -/
theorem plain_splitKeys {operands : List Term} (h : operands.all Term.isPlainKey = true) :
    (∀ key ∈ (splitKeys operands).1, positionOfKey? key = none) ∧
      (splitKeys operands).2.all Term.isPlainKey = true := by
  rw [← splitKeys_append operands, List.all_append, Bool.and_eq_true] at h
  refine ⟨fun key hkey => ?_, h.2⟩
  exact Term.position_of_isPlainKey (List.all_eq_true.1 h.1 _ (List.mem_map_of_mem hkey)) key rfl

end RefChain

/-! ## What a reference stands for under overrides -/

theorem Term.Hereditary.layOver {V : Term → Prop} (hV : Term.Hereditary V)
    {entries : List (List String × Option Term)} {base found : Option Term} (h : Term.layOver entries base = .ok found)
    (hentries : ∀ e ∈ entries, ∀ t, e.2 = some t → V t) (hbase : ∀ t, base = some t → V t) :
    ∀ t, found = some t → V t := by
  induction entries generalizing base with
  | nil =>
    cases h
    exact hbase
  | cons entry rest ih =>
    rw [List.forall_mem_cons] at hentries
    obtain ⟨path, _ | value⟩ := entry
    · exact ih h hentries.2 hbase
    · rw [Term.layOver] at h
      split at h
      · next doc hset =>
        refine ih h hentries.2 fun t ht => ?_
        cases ht
        refine hV.setPath (hentries.1 value rfl) ?_ hset
        cases base with
        | none => exact hV.emptyObject
        | some t => exact hbase t rfl
      · cases h

theorem Scope.overlay_inherits {V : Term → Prop} (hV : Term.Hereditary V) {path : DataPath}
    {overrides : List (DataPath × Term)} {base found : Option Term} (h : Scope.overlay path overrides base = .ok found)
    (hoverrides : ∀ o ∈ overrides, V o.2) (hbase : ∀ t, base = some t → V t) : ∀ t, found = some t → V t := by
  have hlaid : ∀ {overrides : List (DataPath × Term)}, (∀ o ∈ overrides, V o.2) →
      ∀ e ∈ Scope.laidBelow path overrides, ∀ t, e.2 = some t → V t := by
    rintro overrides hoverrides e he t ht
    obtain ⟨o, ho, rfl⟩ := List.mem_map.1 he
    cases ht
    exact hoverrides o (List.mem_filter.1 ho).1
  rw [Scope.overlay] at h
  split at h
  · next doc later hcovering =>
    obtain ⟨hdoc, hlater⟩ := hV.covering? hcovering hoverrides
    exact hV.layOver h (hlaid hlater) hdoc
  · exact hV.layOver h (hlaid hoverrides) hbase

/-- Overrides that cannot be laid over a document. -/
def EvalError.IsUnsettable (e : EvalError) : Prop := ∃ at', e = .internal (.unsettable at')

namespace Env

/-- The document under overrides that the keys of a reference lead to, where no rule has to do with it. -/
def baseUnder (env : Env) (σ : Scope) (chain : RefChain) : Except Term.PathError (Option Term) :=
  match chain.root with
  | "input" => .ok (σ.input.bind fun doc => doc.lookupKeys chain.keys)
  | "data" => Scope.overlay chain.keys σ.data (env.root.at? (StorePath.ofKeys chain.keys))
  | _ => .ok none

/-- What a reference stands for under overrides, where no rule has to do with it. -/
def valueUnder (env : Env) (σ : Scope) (reference : Term) : Except Term.PathError (Option Term) :=
  match RefChain.ofTerm? reference with
  | none => .ok none
  | some chain => (env.baseUnder σ chain).map fun found => found.bind (·.follow chain.rest)

/-- What a plain reference stands for under overrides, if they can be laid; other references stand for nothing. -/
def plainValue (env : Env) (σ : Scope) (reference : Term) : Option Term :=
  if reference.isPlainRef then (env.valueUnder σ reference).toOption.join else none

variable {env : Env} {σ : Scope} {r r' : Term}

theorem valueUnder_congr (hplain : r.isPlainRef = true) (h : Same r r') :
    env.valueUnder σ r = env.valueUnder σ r' := by
  obtain ⟨head, operands, rfl⟩ : ∃ head operands, r = .ref head operands := by
    cases r <;> first | exact ⟨_, _, rfl⟩ | cases hplain
  cases hc : RefChain.ofTerm? (.ref head operands) with
  | none =>
    cases hc' : RefChain.ofTerm? r' with
    | none => simp only [valueUnder, hc, hc']
    | some c' =>
      obtain ⟨_, hsome, _⟩ := RefChain.ofTerm?_congr (Term.beq_symm h) hc'
      rw [hc] at hsome
      cases hsome
  | some c =>
    obtain ⟨rest, hc', hrest⟩ := RefChain.ofTerm?_congr h hc
    have hkeys : c.rest.all Term.isPlainKey = true := by
      unfold RefChain.ofTerm? at hc
      split at hc
      · next heq =>
        cases heq
        cases hc
        exact (RefChain.plain_splitKeys hplain).2
      · cases hc
    have hfollow : (fun found : Option Term => found.bind (·.follow c.rest)) = fun found => found.bind (·.follow rest) :=
      funext fun found => Option.bind_congr fun t _ => Term.follow_congr_of_plain hkeys hrest t
    have hbase : env.baseUnder σ { c with rest := rest } = env.baseUnder σ c := rfl
    simp only [valueUnder, hc, hc', hbase, hfollow]

theorem plainValue_congr (h : Same r r') : env.plainValue σ r = env.plainValue σ r' := by
  rw [plainValue, plainValue, ← Term.isPlainRef_congr h]
  split
  · next hplain => rw [valueUnder_congr hplain h]
  · rfl

/-- What holds of the documents and of their parts holds of what a reference stands for. -/
theorem valueUnder_inherits {V : Term → Prop} (hV : Term.Hereditary V) (hroot : V env.root)
    (hinput : ∀ doc, σ.input = some doc → V doc) (hdata : ∀ o ∈ σ.data, V o.2) {v : Term}
    (h : env.valueUnder σ r = .ok (some v)) : V v := by
  have hfollow : ∀ (keys : List Term) {t v : Term}, V t → t.follow keys = some v → V v := by
    intro keys
    induction keys with
    | nil =>
      rintro t _ ht ⟨⟩
      exact ht
    | cons key rest ih =>
      intro t v ht hv
      obtain ⟨u, hu, hv⟩ := Option.bind_eq_some_iff.1 hv
      exact ih (hV.lookup ht hu) hv
  unfold valueUnder at h
  split at h
  · cases h
  · next chain _ =>
    cases hbase : env.baseUnder σ chain with
    | error e =>
      rw [hbase] at h
      cases h
    | ok found =>
      rw [hbase] at h
      obtain ⟨t, ht, hv⟩ := Option.bind_eq_some_iff.1 (Except.ok.inj h)
      refine hfollow _ (t := t) ?_ hv
      unfold baseUnder at hbase
      split at hbase
      · rw [Except.ok.inj hbase.symm] at ht
        obtain ⟨doc, hdoc, ht⟩ := Option.bind_eq_some_iff.1 ht
        exact hV.lookupKeys (hinput doc hdoc) ht
      · exact Scope.overlay_inherits hV hbase hdata (fun t ht => hV.at? hroot ht) t ht
      · cases hbase
        cases ht

/-- An index resolves a reference to what it stands for, or finds that the overrides cannot be laid. -/
theorem settles_resolve (rules : RuleSemantics) (hfailing : env.failing = [])
    (hr : Constraint.isIndexRef env.policy.overlaps r = true) (hplain : r.isPlainRef = true) {s : State}
    (hagrees : σ.Agrees s.scope) : (env.resolve rules r).Settles EvalError.IsUnsettable (env.plainValue σ r) s := by
  rw [plainValue, if_pos hplain]
  unfold Constraint.isIndexRef at hr
  split at hr
  · next root operands =>
    simp only [Bool.and_eq_true, Bool.or_eq_true, beq_iff_eq, Bool.not_eq_true'] at hr
    rcases hr.2 with rfl | ⟨rfl, hapart⟩
    · refine .inl ⟨s, ?_, .refl s⟩
      simp only [resolve, valueUnder, baseUnder, RefChain.ofTerm?, ← hagrees.input]
      rfl
    · rw [Policy.overlaps, Bool.or_eq_false_iff, Policy.hasBelow_eq, Bool.not_eq_false', List.isEmpty_iff] at hapart
      have hcovering : env.policy.covering? (RefChain.splitKeys operands).1 = none := by
        simpa [Constraint.leadingKeys] using hapart.1
      obtain ⟨s', hquiet, hrun⟩ := run_document_overlaid rules hfailing hcovering hapart.2 s
      simp only [Eval.Settles, resolve, valueUnder, baseUnder, RefChain.ofTerm?, Eval.run_bind, hrun, ← hagrees.data]
      cases Scope.overlay (RefChain.splitKeys operands).1 s.scope.data
        (env.root.at? (StorePath.ofKeys (RefChain.splitKeys operands).1)) with
      | error e => exact .inr ⟨_, _, rfl, e, rfl⟩
      | ok found => exact .inl ⟨s', rfl, hquiet⟩
  · cases hr

end Env

/-! ## Where a walk arrives -/

namespace Search

variable {α : Type} {s : State}

theorem Passes.of_eq {search search' : (Term → Search α) → Search α} {s' : State} {r : Except EvalError (Option Term)}
    (h : Passes search' s' r) (hs : s'.bindings = s.bindings)
    (heq : ∀ k found, search k found s = search' k found s') : Passes search s r := by
  obtain ⟨s'', hbindings, hpasses⟩ := h
  exact ⟨s'', hbindings.trans hs, fun k found => (heq k found).trans (hpasses k found)⟩

end Search

namespace Env

variable {α : Type} (env : Env) (rules : RuleSemantics) {operand : Term} {operands rest : List Term} {s : State}

/-- Plain keys lead from a value where they lead in it. -/
theorem walk_value_follow (hoperands : operands.all Term.isPlainKey = true) (v : Term) (k : Term → Search α) :
    env.walk rules (.value v) operands k = Search.afterSome (Eval.ofExcept (.ok (v.follow operands))) k := by
  induction operands generalizing v with
  | nil => exact env.walk_end rules v k
  | cons operand rest ih =>
    rw [List.all_cons, Bool.and_eq_true] at hoperands
    obtain ⟨hground, hvalue⟩ := Term.ground_of_isScalar (Term.isScalar_of_isPlainKey hoperands.1)
    rw [env.walk_ground rules hground hvalue, Term.follow_cons]
    cases v.lookup operand with
    | none => rfl
    | some u => exact ih hoperands.2 u

/-- The walk below a stored document, by a scalar. -/
def stride (path : StorePath) (operand : Term) (rest : List Term) (k : Term → Search α) : Search α :=
  match PathSegment.ofTerm? operand with
  | some segment => env.walk rules (.child path segment operand) rest k
  | none => Search.afterSome (do return (← env.read path).bind (·.lookup operand)) fun v =>
    env.walk rules (.value v) rest k

/-- Where the store is to be asked for parts it is asked for the part under the operand. -/
theorem walk_of_settle (hscalar : operand.isScalar = true) {c : Cursor} {path : StorePath}
    (hsettle : (env.settle rules operand c).run s = (.ok (some (.stored path)), s)) (k : Term → Search α) (found : α) :
    env.walk rules c (operand :: rest) k found s = env.stride rules path operand rest k found s := by
  obtain ⟨hground, hvalue⟩ := Term.ground_of_isScalar hscalar
  rw [walk, Search.afterSome_run, hsettle, Search.afterSome_some]
  change env.evalTerm rules operand _ found s = _
  rw [env.evalTerm_ground rules hground hvalue, Search.withBindings, Bindings.plug_of_isGround hground]
  exact congrFun (congrFun (if_pos hground) found) s

variable {env}

theorem passes_stride (hroot : env.root.IsJson) (hfailing : env.failing = []) (hoperand : operand.isPlainKey = true)
    (hwalk : ∀ parent segment key s, Search.Passes (α := α) (env.walk rules (.child parent segment key) rest) s
      (.ok ((env.root.at? (parent ++ [segment])).bind (·.follow rest)))) (path : StorePath) (s : State) :
    Search.Passes (α := α) (env.stride rules path operand rest) s
      (.ok ((env.root.at? path).bind (·.follow (operand :: rest)))) := by
  cases hsegment : PathSegment.ofTerm? operand with
  | some segment =>
    have hpart : (env.root.at? (path ++ [segment])).bind (·.follow rest) =
        (env.root.at? path).bind (·.follow (operand :: rest)) := by
      rw [Term.at?_snoc, Option.bind_assoc]
      refine Option.bind_congr fun t ht => ?_
      rw [(hroot.at? ht).child?_eq_lookup (Term.position_of_isPlainKey hoperand) hsegment, Term.follow_cons]
    rw [← hpart]
    refine (hwalk path segment operand s).of_eq rfl fun k found => ?_
    rw [stride, hsegment]
  | none =>
    have hnone : (env.root.at? path).bind (·.lookup operand) = none :=
      Option.bind_eq_none_iff.2 fun t ht => (hroot.at? ht).lookup_eq_none hsegment
    have hnone' : (env.root.at? path).bind (·.follow (operand :: rest)) = none := by
      simp only [Term.follow_cons, ← Option.bind_assoc, hnone, Option.bind_none]
    rw [hnone']
    refine ⟨{ s with requests := s.requests.push ("read " ++ path.text) }, rfl, fun k found => ?_⟩
    rw [stride, hsegment]
    dsimp only
    rw [Search.afterSome_run]
    simp only [Eval.run_bind, env.run_read_unfailing hfailing, hnone]
    rfl

/-- Below a stored document, plain keys lead where they lead in the document. -/
theorem passes_walk_stored (hroot : env.root.IsJson) (hfailing : env.failing = [])
    (hoperands : operands.all Term.isPlainKey = true) (parent : StorePath) (segment : PathSegment) (key : Term)
    (s : State) : Search.Passes (α := α) (env.walk rules (.child parent segment key) operands) s
      (.ok ((env.root.at? (parent ++ [segment])).bind (·.follow operands))) := by
  induction operands generalizing parent segment key s with
  | nil =>
    obtain ⟨requests, hrun⟩ := run_arrive_child rules hroot hfailing parent segment key s
    refine ⟨{ s with requests := requests }, rfl, fun k found => ?_⟩
    rw [walk, Search.afterSome_run, hrun]
    cases env.root.at? (parent ++ [segment]) <;> rfl
  | cons operand rest ih =>
    rw [List.all_cons, Bool.and_eq_true] at hoperands
    have hscalar := Term.isScalar_of_isPlainKey hoperands.1
    refine (passes_stride rules hroot hfailing hoperands.1 (ih hoperands.2) (parent ++ [segment]) s).of_eq rfl
      fun k found => ?_
    exact env.walk_of_settle rules hscalar rfl k found

/-- Where no override has to do with a path, it stands for what is stored there. -/
theorem overlay_of_untouched {σ : Scope} {path : DataPath} (h : σ.touches path = false) (base : Option Term) :
    Scope.overlay path σ.data base = .ok base := by
  rw [Scope.touches, List.any_eq_false] at h
  have hapart : ∀ o ∈ σ.data, ¬ path <+: o.1 ∧ ¬ o.1 <+: path := by
    intro o ho
    simpa [List.isPrefixOf_iff_prefix] using h o ho
  generalize σ.data = overrides at hapart
  have hcovering : Scope.covering? path overrides = none := by
    induction overrides with
    | nil => rfl
    | cons first later ih =>
      rw [List.forall_mem_cons] at hapart
      rw [Scope.covering?, ih hapart.2, if_neg (mt List.isPrefixOf_iff_prefix.1 hapart.1.2)]
  have hbelow : Scope.below path overrides = [] := by
    refine List.filter_eq_nil_iff.2 fun o ho hbelow => ?_
    rw [Bool.and_eq_true, List.isPrefixOf_iff_prefix] at hbelow
    exact (hapart o ho).1 hbelow.2
  simp only [Scope.overlay, hcovering, Scope.laidBelow, hbelow]
  rfl

/-- Keys below a path, as operands of a reference, and what it stands for. -/
theorem valueUnder_data (σ : Scope) (path : DataPath) (operands : List Term) :
    env.valueUnder σ (.ref (.var "data") (path.map .string ++ operands)) =
      (Scope.overlay (path ++ (RefChain.splitKeys operands).1) σ.data
        (env.root.at? (StorePath.ofKeys (path ++ (RefChain.splitKeys operands).1)))).map
          fun found => found.bind (·.follow (RefChain.splitKeys operands).2) := by
  rw [valueUnder, RefChain.ofTerm?, RefChain.splitKeys_strings]
  rfl

/-- What stands below a path under overrides is found in the document at the path. -/
theorem valueUnder_of_overlay (hroot : env.root.IsJson) {σ : Scope} {path : DataPath} {found : Option Term}
    (hplain : (path.map Term.string ++ operands).all Term.isPlainKey = true)
    (h : Scope.overlay path σ.data (env.root.at? (StorePath.ofKeys path)) = .ok found) :
    env.valueUnder σ (.ref (.var "data") (path.map .string ++ operands)) = .ok (found.bind (·.follow operands)) := by
  have hkeys := (RefChain.plain_splitKeys hplain).1
  rw [RefChain.splitKeys_strings] at hkeys
  have hbelow := Scope.overlay_below h (RefChain.splitKeys operands).1
  rw [hroot.at?_ofKeys (List.forall_mem_append.1 hkeys).1, ← Term.lookupKeys_append] at hbelow
  rw [valueUnder_data, hroot.at?_ofKeys hkeys, hbelow]
  refine congrArg Except.ok ((Option.bind_assoc _ _ _).trans ?_)
  refine Option.bind_congr fun t _ => ?_
  rw [← Term.follow_strings, RefChain.splitKeys_append]

/-- A document with which no rule has to do is followed as a whole. -/
theorem passes_whole (hroot : env.root.IsJson) (hfailing : env.failing = []) {path : DataPath}
    (hplain : (path.map Term.string ++ operands).all Term.isPlainKey = true)
    (hoverlaps : env.policy.overlaps path = false) {m : (Term → Search α) → Search α}
    (hm : ∀ k found, m k found s =
      Search.afterSome (env.document rules path) (fun v => env.walk rules (.value v) operands k) found s) :
    ∃ r, Search.Passes m s r ∧ ∀ v, r = .ok v →
      env.valueUnder s.scope (.ref (.var "data") (path.map .string ++ operands)) = .ok v := by
  have hplain' : operands.all Term.isPlainKey = true := by
    rw [List.all_append, Bool.and_eq_true] at hplain
    exact hplain.2
  rw [Policy.overlaps, Bool.or_eq_false_iff, Policy.hasBelow_eq, Bool.not_eq_false', List.isEmpty_iff,
    Option.isSome_eq_false_iff, Option.isNone_iff_eq_none] at hoverlaps
  obtain ⟨s', hquiet, hrun⟩ := run_document_overlaid rules hfailing hoverlaps.1 hoverlaps.2 s
  have hbindings : s'.bindings = s.bindings := congrArg Frame.bindings hquiet.frame
  cases hoverlay : Scope.overlay path s.scope.data (env.root.at? (StorePath.ofKeys path)) with
  | error e =>
    refine ⟨.error (.internal (.unsettable e)), ⟨s', hbindings, fun k found => ?_⟩, by simp⟩
    rw [hm, Search.afterSome_run, hrun, hoverlay]
    rfl
  | ok doc =>
    refine ⟨.ok (doc.bind (·.follow operands)), ⟨s', hbindings, fun k found => ?_⟩, fun v hv => ?_⟩
    · rw [hm, Search.afterSome_run, hrun, hoverlay]
      cases doc with
      | none => rfl
      | some t => exact congrFun (congrFun (env.walk_value_follow rules hplain' t k) found) s'
    · cases hv
      exact valueUnder_of_overlay hroot hplain hoverlay

/-- Where overrides have to do with a path the walk needs the whole document. -/
theorem walk_touched {path : DataPath} (hoverlaps : env.policy.overlaps path = false)
    (htouches : s.scope.touches path = true) (k : Term → Search α) (found : α) :
    env.walk rules (.data path) (operand :: rest) k found s =
      Search.afterSome (env.document rules path) (fun v => env.walk rules (.value v) (operand :: rest) k) found s := by
  have hsettle : (env.settle rules operand (.data path)).run s =
      (((env.document rules path).run s).1.map fun doc => doc.map Footing.value,
        ((env.document rules path).run s).2) := by
    simp only [settle, Eval.run_bind, Eval.run_get, hoverlaps, htouches, Bool.not_false, if_true]
    rcases (env.document rules path).run s with ⟨_ | _, _⟩ <;> rfl
  rw [walk, Search.afterSome_run, hsettle, Search.afterSome_run (env.document rules path)]
  rcases (env.document rules path).run s with ⟨_ | _ | v, s₁⟩
  · rfl
  · rfl
  · dsimp only [Except.map, Option.map]
    rw [Search.afterSome_some, Search.afterSome_some, walk]
    rfl

theorem settle_untouched {path : DataPath} (hoverlaps : env.policy.overlaps path = false)
    (htouches : s.scope.touches path = false) :
    (env.settle rules operand (.data path)).run s = (.ok (some (.stored (StorePath.ofKeys path))), s) := by
  simp only [settle, Eval.run_bind, Eval.run_get, hoverlaps, htouches]
  rfl

/-- On the way to a path with which no rule has to do, an operand under which rules lie is a key, and no rule set lies
there. -/
theorem exists_key_of_apart (hsep : Policy.Separate env.policy.ruleSets) {path : DataPath}
    (hoverlaps : env.policy.overlaps path = true)
    (hapart : env.policy.overlaps (path ++ (RefChain.splitKeys (operand :: rest)).1) = false) :
    ∃ key, operand = .string key ∧ env.policy.ruleSet? path = none := by
  obtain ⟨key, rfl⟩ : ∃ key, operand = .string key := by
    by_contra hstring
    rw [RefChain.splitKeys.eq_2 _ fun text _ he => hstring ⟨text, (List.cons.inj he).1⟩, List.append_nil,
      hoverlaps] at hapart
    cases hapart
  refine ⟨key, rfl, Option.eq_none_iff_forall_ne_some.2 fun rs hrs => ?_⟩
  obtain ⟨hmem, hpath⟩ := Policy.mem_of_ruleSet? hrs
  rw [Policy.overlaps, Policy.covering?_eq_some hsep hmem (hpath ▸ List.prefix_append path _)] at hapart
  cases hapart

/-- A reference below `data` with which no rule has to do arrives at what it stands for, unless overrides cannot be
laid. -/
theorem passes_walk_overlaid (hsep : Policy.Separate env.policy.ruleSets) (hroot : env.root.IsJson)
    (hfailing : env.failing = []) {path : DataPath}
    (hplain : (path.map Term.string ++ operands).all Term.isPlainKey = true)
    (hapart : env.policy.overlaps (path ++ (RefChain.splitKeys operands).1) = false) (s : State) :
    ∃ r, Search.Passes (α := α) (env.walk rules (.data path) operands) s r ∧ ∀ v, r = .ok v →
      env.valueUnder s.scope (.ref (.var "data") (path.map .string ++ operands)) = .ok v := by
  induction operands generalizing path with
  | nil =>
    refine passes_whole rules hroot hfailing hplain (by simpa [RefChain.splitKeys] using hapart) fun k found => ?_
    simp only [env.walk_end]
    rw [walk]
    rfl
  | cons operand rest ih =>
    cases hoverlaps : env.policy.overlaps path with
    | false =>
      cases htouches : s.scope.touches path with
      | true =>
        exact passes_whole rules hroot hfailing hplain hoverlaps (walk_touched rules hoverlaps htouches)
      | false =>
        have hkeys := hplain
        rw [List.all_append, List.all_cons, Bool.and_eq_true, Bool.and_eq_true] at hkeys
        obtain ⟨-, hoperand, hrest⟩ := hkeys
        have hstride := passes_stride (α := α) rules hroot hfailing hoperand
          (passes_walk_stored rules hroot hfailing hrest) (StorePath.ofKeys path) s
        refine ⟨_, hstride.of_eq rfl fun k found => ?_, fun v hv => ?_⟩
        · exact env.walk_of_settle rules (Term.isScalar_of_isPlainKey hoperand)
            (settle_untouched rules hoverlaps htouches) k found
        · cases hv
          exact valueUnder_of_overlay hroot hplain (overlay_of_untouched htouches _)
    | true =>
      obtain ⟨key, rfl, hnone⟩ := exists_key_of_apart hsep hoverlaps hapart
      -- the path is followed by one more key
      have hkeys : (path ++ [key]).map Term.string ++ rest = path.map .string ++ .string key :: rest := by simp
      have hsplit : path ++ [key] ++ (RefChain.splitKeys rest).1 =
          path ++ (RefChain.splitKeys (.string key :: rest)).1 := by simp [RefChain.splitKeys]
      have hplain' : ((path ++ [key]).map Term.string ++ rest).all Term.isPlainKey = true := hkeys ▸ hplain
      obtain ⟨r, hpasses, hr⟩ := ih hplain' (hsplit ▸ hapart)
      refine ⟨r, hpasses.of_eq rfl fun k found => env.walk_data_next rules hoverlaps hnone key rest k found, ?_⟩
      rwa [hkeys] at hr

/-- What the evaluator finds a reference of an index to stand for it stands for, as far as overrides can be laid. -/
theorem passes_evalTerm (hsep : Policy.Separate env.policy.ruleSets) (hroot : env.root.IsJson)
    (hfailing : env.failing = []) {r : Term} (hr : Constraint.isIndexRef env.policy.overlaps r = true)
    (hplain : r.isPlainRef = true) (hnames : ∀ x, isRoot x = true → s.bindings.lookup x = none) :
    ∃ v, Search.Passes (α := α) (env.evalTerm rules r) s v ∧ ∀ u, v = .ok u → env.valueUnder s.scope r = .ok u := by
  unfold Constraint.isIndexRef at hr
  split at hr
  · next root operands =>
    simp only [Bool.and_eq_true, Bool.or_eq_true, beq_iff_eq, Bool.not_eq_true'] at hr
    rcases hr.2 with rfl | ⟨rfl, hapart⟩
    · refine ⟨.ok (s.scope.input.bind (·.follow operands)), ⟨s, rfl, fun k found => ?_⟩, fun u hu => ?_⟩
      · have hroot : s.bindings.root? (.var "input") = some "input" := by
          rw [Bindings.root?, hnames "input" (by decide)]
          rfl
        have hrun : (rootCursor "input").run s = (.ok (s.scope.input.map .value), s) := rfl
        rw [evalTerm, Search.withBindings, hroot]
        dsimp only
        rw [Search.afterSome_run, hrun]
        cases s.scope.input with
        | none => rfl
        | some t => exact congrFun (congrFun (env.walk_value_follow rules hplain t k) found) s
      · cases hu
        refine congrArg Except.ok ((Option.bind_assoc _ _ _).trans (Option.bind_congr fun t _ => ?_))
        rw [← Term.follow_strings, RefChain.splitKeys_append]
    · have hplain' : (([] : DataPath).map Term.string ++ operands).all Term.isPlainKey = true := hplain
      obtain ⟨v, hpasses, hv⟩ := passes_walk_overlaid (α := α) rules hsep hroot hfailing hplain' hapart s
      refine ⟨v, hpasses.of_eq rfl fun k found => ?_, hv⟩
      have hroot : s.bindings.root? (.var "data") = some "data" := by
        rw [Bindings.root?, hnames "data" (by decide)]
        rfl
      rw [evalTerm, Search.withBindings, hroot]
      rfl
  · cases hr

end Env

end PolicyEngine
