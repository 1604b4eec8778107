import PolicyEngine.Proofs.Agreement
import PolicyEngine.Proofs.Beside
import PolicyEngine.Proofs.Descent
import PolicyEngine.Proofs.Enumeration
import PolicyEngine.Proofs.EqualNumbers

/-!
Walks through the store. Where neither rules nor overrides have to do with a path, a reference asks the store for keys
and for parts of documents. In a document from JSON such a walk arrives where the walk through the document itself
arrives, in the same order and with the same environments, as long as no key is the text of a position: the store takes
such a text for a position in an array.
-/
namespace PolicyEngine

/-! ## Keys -/

/-- Neither the text of a position nor a variable with the name of a root document. -/
structure Term.Direct (t : Term) : Prop where
  position : ∀ text, t = .string text → positionOfKey? text = none
  root : ∀ x, t = .var x → isRoot x = false

namespace Term

theorem direct_of_rank {t : Term} (h : (t.rank == (string "").rank || t.rank == (var "").rank) = false) : t.Direct := by
  constructor
  · rintro text rfl
    simp [rank] at h
  · rintro x rfl
    simp [rank] at h

namespace IsJson

variable {v key : Term} {segment : PathSegment}

/-- Only strings are found among the keys of an object. -/
theorem findField?_eq_none {fields : List (Term × Term)} (hkeys : ∀ f ∈ fields, ∃ name, f.1 = .string name)
    (hkey : key.rank ≠ (string "").rank) : Term.findField? key fields = none := by
  induction fields with
  | nil => rfl
  | cons field rest ih =>
    rw [List.forall_mem_cons] at hkeys
    obtain ⟨name, hname⟩ := hkeys.1
    rw [Term.findField?, hname, ih hkeys.2]
    split
    · rfl
    · next heq => exact absurd (rank_eq_of_cmp heq) hkey
    · rfl

/-- A part that is addressed by a key is what is looked up under it. -/
theorem child?_eq_lookup (h : v.IsJson) (hkey : ∀ text, key = .string text → positionOfKey? text = none)
    (hsegment : PathSegment.ofTerm? key = some segment) : v.child? segment = v.lookup key := by
  cases h with
  | scalar hscalar => cases v <;> cases hscalar <;> rfl
  | array _ =>
    cases key with
    | string text =>
      cases hsegment
      simp only [Term.child?, hkey text rfl, lookup, Option.bind_none]
    | number n =>
      simp only [PathSegment.ofTerm?] at hsegment
      split at hsegment
      · obtain ⟨i, hi, rfl⟩ := Option.map_eq_some_iff.1 hsegment
        simp only [Term.child?, lookup, hi, Option.bind_some]
      · cases hsegment
    | _ => cases hsegment
  | object hkeys _ =>
    cases key with
    | string text =>
      cases hsegment
      rfl
    | number n =>
      rw [lookup, findField?_eq_none hkeys (by simp [rank])]
      simp only [PathSegment.ofTerm?] at hsegment
      split at hsegment
      · obtain ⟨i, hi, rfl⟩ := Option.map_eq_some_iff.1 hsegment
        rfl
      · cases hsegment
    | _ => cases hsegment

/-- Under a key that is no address there is nothing. -/
theorem lookup_eq_none (h : v.IsJson) (hsegment : PathSegment.ofTerm? key = none) : v.lookup key = none := by
  cases h with
  | scalar hscalar => cases v <;> cases hscalar <;> rfl
  | array _ =>
    cases key with
    | number n =>
      cases hi : n.toUnsigned? with
      | none => rw [lookup, hi, Option.bind_none]
      | some i =>
        have hinteger : n.isInteger = true := (Number.isInteger_congr (exact_of_toUnsigned? hi)).symm.trans
          (Number.isInteger_of_exactInt? (Number.exactInt?_ofInt i))
        rw [PathSegment.ofTerm?, if_pos hinteger, hi] at hsegment
        cases hsegment
    | _ => rfl
  | object hkeys _ =>
    refine findField?_eq_none hkeys fun hrank => ?_
    cases key <;> simp only [rank, reduceCtorEq] at hrank <;> first | omega | cases hsegment

end IsJson

/-- A document from JSON with its keys in order, none of them the text of a position, and with no more elements in an
array than there are exact positions. -/
inductive Addressed : Term → Prop where
  | scalar {t : Term} : t.isScalar = true → Addressed t
  | array {items : List Term} : items.length ≤ Number.safeInteger.natAbs → (∀ t ∈ items, Addressed t) →
      Addressed (.array items)
  | object {fields : List (Term × Term)} : SortedBy Prod.fst fields →
      (∀ f ∈ fields, ∃ name, f.1 = .string name ∧ positionOfKey? name = none) → (∀ f ∈ fields, Addressed f.2) →
      Addressed (.object fields)

namespace Addressed

variable {v u key : Term} {segment : PathSegment}

theorem enumerable (h : v.Addressed) : v.Enumerable := by
  cases h with
  | scalar hscalar => cases v <;> cases hscalar <;> trivial
  | array hlength _ => exact hlength
  | object hsorted _ _ => exact hsorted

theorem child? (h : v.Addressed) (hu : v.child? segment = some u) : u.Addressed := by
  cases h with
  | scalar hscalar => cases v <;> cases hscalar <;> cases hu
  | array _ hitems =>
    cases segment with
    | index i => exact hitems u (List.mem_of_getElem? hu)
    | key name =>
      obtain ⟨i, -, hi⟩ := Option.bind_eq_some_iff.1 hu
      exact hitems u (List.mem_of_getElem? hi)
  | object _ _ hvalues =>
    cases segment with
    | index i => cases hu
    | key name =>
      obtain ⟨k, hk⟩ := mem_of_findField? hu
      exact hvalues _ hk

theorem at? {path : StorePath} (h : v.Addressed) (hu : v.at? path = some u) : u.Addressed :=
  at?_of_child? (fun _ _ _ => child?) h hu

theorem isJson (h : v.Addressed) : v.IsJson := by
  induction h with
  | scalar hscalar => exact .scalar hscalar
  | array _ _ ih => exact .array ih
  | object _ hkeys _ ih => exact .object (fun f hf => (hkeys f hf).imp fun _ => And.left) ih

/-- The key of an entry addresses the value under it. -/
theorem child?_of_entry {entry : Term × Term} (h : v.Addressed) (hentry : entry ∈ v.entries) :
    entry.1.isScalar = true ∧ entry.1.Direct ∧
      ∃ segment, PathSegment.ofTerm? entry.1 = some segment ∧ v.child? segment = some entry.2 := by
  have henum := h.enumerable
  have hlookup : v.lookup entry.1 = some entry.2 := (lookup_eq_some_iff henum).2 ⟨entry.1, hentry, beq_refl entry.1⟩
  suffices hkey : entry.1.isScalar = true ∧ entry.1.Direct ∧ ∃ segment, PathSegment.ofTerm? entry.1 = some segment by
    obtain ⟨hscalar, hdirect, segment, hsegment⟩ := hkey
    exact ⟨hscalar, hdirect, segment, hsegment, (h.isJson.child?_eq_lookup hdirect.position hsegment).trans hlookup⟩
  cases h with
  | scalar hscalar => cases v <;> cases hscalar <;> cases hentry
  | @array items _ _ =>
    obtain ⟨⟨item, i⟩, hi, rfl⟩ := List.mem_map.1 hentry
    have hlt : i < items.length := (List.mem_zipIdx' hi).1
    have hunsigned := toUnsigned?_ofNat (hlt.trans_le henum)
    refine ⟨rfl, direct_of_rank rfl, .index i, ?_⟩
    simp only [PathSegment.ofTerm?, ofNat, hunsigned, Option.map_some]
    rw [if_pos]
    exact Number.isInteger_of_exactInt? (Number.exactInt?_ofInt i)
  | @object fields _ hkeys _ =>
    obtain ⟨name, hname, hposition⟩ := hkeys entry hentry
    rw [hname]
    exact ⟨rfl, ⟨fun text htext => Term.string.inj htext ▸ hposition, by simp⟩, .key name, rfl⟩

/-- The text of a position addresses an element of an array, under which nothing is looked up. -/
example : ((Term.array [.null, .bool true]).child? (.key "1")).isSome = true ∧
    ((Term.array [.null, .bool true]).lookup (.string "1")).isSome = false := by
  decide

/-- The keys of a collection are those of its entries. -/
theorem childKeys? (h : v.Addressed) : v.childKeys?.getD [] = v.entries.map Prod.fst := by
  cases h with
  | scalar hscalar => cases v <;> cases hscalar <;> rfl
  | @array items _ _ => exact (keys_entries_array items).symm
  | object _ _ _ => rfl

end Addressed

end Term

/-! ## Environments -/

namespace Bindings

variable {b b' : Bindings} {x y t : Term}

theorem Holds.plugTo_direct (hb : b.Holds Term.Direct) (n : Nat) (ht : t.Direct) : (b.plugTo n t).Direct := by
  induction n generalizing t with
  | zero => exact ht
  | succ n ih =>
    rw [Bindings.plugTo]
    split
    · exact ht
    · cases t with
      | var x =>
        have hderef := hb.deref ht
        rw [Term.substitute]
        split
        · next unbound hunbound => rwa [hunbound] at hderef
        · exact ih hderef
      | object fields | set members =>
        rw [Term.substitute]
        split <;> exact Term.direct_of_rank rfl
      | string _ => exact ht
      | _ => exact Term.direct_of_rank rfl

theorem Holds.plug_direct (hb : b.Holds Term.Direct) (ht : t.Direct) : (b.plug t).Direct :=
  plug_eq_plugTo b t ▸ hb.plugTo_direct _ ht

/-- A scalar is bound to one variable or to none. -/
theorem Holds.unify_scalar (hb : b.Holds Term.Direct) (hx : x.Direct) (hy : y.Direct) (hscalar : y.isScalar = true)
    (h : b.unify x y = some b') : b'.Holds Term.Direct := by
  have hvar : y.isVar = false := by cases y <;> cases hscalar <;> rfl
  have hderef : b.deref y = y := deref_of_not_isVar hvar
  obtain ⟨n, hn⟩ : ∃ n, x.size + y.size + b.size = n + 1 := by
    refine Nat.exists_eq_succ_of_ne_zero ?_
    cases y <;> cases hscalar <;> simp [Term.size]
  rw [unify, hn] at h
  cases hxvar : (b.deref x).isVar with
  | true =>
    obtain ⟨name, hname⟩ := Term.exists_of_isVar hxvar
    rw [unifyTo_left hname (hderef.symm ▸ hvar), hderef] at h
    exact (extends_bind (hname ▸ hb.deref hx) hy b b' hb h).1
  | false =>
    have hkind : (b.deref x).isCollection = true → (b.deref x).rank ≠ (b.deref y).rank := by
      rw [hderef]
      cases y <;> cases hscalar <;> cases b.deref x <;> simp [Term.isCollection, Term.rank]
    rw [unifyTo_others hxvar (hderef.symm ▸ hvar) hkind] at h
    split at h <;> cases h
    exact hb

end Bindings

/-! ## Searches that ask the store -/

/-- No data is overridden, and no variable stands for the text of a position. -/
structure State.Direct (s : State) : Prop where
  data : s.scope.data = []
  bindings : s.bindings.Holds Term.Direct

theorem State.Direct.of_frame {s s₁ : State} (hs : s.Direct) (hframe : s₁.frame = s.frame) : s₁.Direct := by
  simp only [State.frame, Frame.mk.injEq] at hframe
  obtain ⟨hbindings, hscope, -⟩ := hframe
  exact ⟨hscope ▸ hs.data, hbindings ▸ hs.bindings⟩

/-- The same state, but for what was asked of the store. -/
def State.Asked (s t : State) : Prop := ∃ requests, s = { t with requests := requests }

namespace Search

variable {α β γ : Type} {m m' : Search α}

/-- An end as another one, but for what was asked of the store, with the frame given back. -/
structure EndsAs (s : State) (r r' : Step α) : Prop where
  outcome : r.outcome = r'.outcome
  found : r.found = r'.found
  state : r.state.Asked r'.state
  frame : r.state.frame = s.frame

/-- A search that may ask the store ends as one that need not. -/
def Serves (m m' : Search α) : Prop :=
  ∀ found s t, s.Direct → s.Asked t → EndsAs s (m found s) (m' found t)

theorem serves_exhausted : Serves (exhausted : Search α) exhausted := fun _ _ _ _ hst => ⟨rfl, rfl, hst, rfl⟩

/-- It is known what the store answers. -/
theorem Serves.asking {e : Eval β} {b : β} {k : β → Search α} (h : Serves (k b) m')
    (he : ∀ s : State, s.scope.data = [] → ∃ requests, e.run s = (.ok b, { s with requests := requests })) :
    Serves (after e k) m' := by
  rintro found s t hs ⟨asked, rfl⟩
  obtain ⟨requests, hrun⟩ := he _ hs.data
  have hend := h found { t with requests := requests } t ⟨hs.data, hs.bindings⟩ ⟨requests, rfl⟩
  simp only [after, hrun]
  exact ⟨hend.outcome, hend.found, hend.state, hend.frame⟩

theorem Serves.checkpoint (env : Env) (h : Serves m m') :
    Serves (after env.checkpoint fun _ => m) (after env.checkpoint fun _ => m') := by
  rintro found s t hs ⟨asked, rfl⟩
  simp only [after, env.run_checkpoint]
  cases env.options.cancellable && t.cancelled with
  | true => exact ⟨rfl, rfl, ⟨asked, rfl⟩, rfl⟩
  | false =>
    rcases t.timer.tick Clock.read t.clock with ⟨e | _, timer, clock⟩
    · simp only
      exact ⟨rfl, rfl, ⟨asked, rfl⟩, rfl⟩
    · simp only
      have hend := h found { t with timer := timer, clock := clock, requests := asked }
        { t with timer := timer, clock := clock } ⟨hs.data, hs.bindings⟩ ⟨asked, rfl⟩
      exact ⟨hend.outcome, hend.found, hend.state, hend.frame⟩

theorem Serves.withBindings {k k' : Bindings → Search α} (h : ∀ b, b.Holds Term.Direct → Serves (k b) (k' b)) :
    Serves (withBindings k) (withBindings k') := by
  rintro found s t hs ⟨asked, rfl⟩
  exact h t.bindings hs.bindings found _ t hs ⟨asked, rfl⟩

theorem Serves.unifying (h : Serves m m') {key name : Term} (hkey : key.Direct) (hname : name.Direct)
    (hscalar : name.isScalar = true) : Serves (unifying key name m) (unifying key name m') := by
  rintro found s t hs ⟨asked, rfl⟩
  simp only [Search.unifying, extending]
  cases hunify : Bindings.unify key name t.bindings with
  | none => exact ⟨rfl, rfl, ⟨asked, rfl⟩, rfl⟩
  | some b =>
    have hend := h found { t with bindings := b, requests := asked } { t with bindings := b }
      ⟨hs.data, hs.bindings.unify_scalar hkey hname hscalar hunify⟩ ⟨asked, rfl⟩
    have hundo : b.undo t.bindings.mark = t.bindings :=
      Bindings.Adds.undo_mark (Bindings.adds_unify (key.varsIn_of_forall fun _ => trivial)
        (name.varsIn_of_forall fun _ => trivial)) hunify
    have hbindings : (m found { t with bindings := b, requests := asked }).state.bindings = b :=
      congrArg Frame.bindings hend.frame
    obtain ⟨requests, hstate⟩ := hend.state
    refine ⟨hend.outcome, hend.found, ⟨requests, ?_⟩, ?_⟩
    · simp only [hstate]
    · simp only [hbindings, hundo]
      exact State.frame_setBindings hend.frame t.bindings

theorem Serves.each {l : List β} {k k' : β → Search α} (h : ∀ b ∈ l, Serves (k b) (k' b)) :
    Serves (each l k) (each l k') := by
  induction l with
  | nil => exact serves_exhausted
  | cons b rest ih =>
    rw [List.forall_mem_cons] at h
    intro found s t hs hst
    have hend := h.1 found s t hs hst
    simp only [Search.each]
    generalize k b found s = r at hend ⊢
    generalize k' b found t = r' at hend ⊢
    obtain ⟨outcome, found₁, s₁⟩ := r
    obtain ⟨outcome', found', t₁⟩ := r'
    obtain ⟨rfl, rfl, hasked, hframe⟩ := hend
    rcases outcome with e | flow
    · exact ⟨rfl, rfl, hasked, hframe⟩
    · cases flow with
      | stop => exact ⟨rfl, rfl, hasked, hframe⟩
      | more =>
        have hrest := ih h.2 found₁ s₁ t₁ (hs.of_frame hframe) hasked
        exact ⟨hrest.outcome, hrest.found, hrest.state, hrest.frame.trans hframe⟩

theorem each_map (l : List γ) (f : γ → β) (k : β → Search α) : each (l.map f) k = each l fun c => k (f c) := by
  induction l with
  | nil => rfl
  | cons c rest ih =>
    funext found s
    simp only [List.map_cons, each, ih]

/-- The search for the value of an operand goes on with one value. -/
theorem exists_evalTerm_operand (env : Env) (rules : RuleSemantics) {operand : Term} (hvalue : operand.needsEval = false)
    (hoperand : operand.Direct) {b : Bindings} (hb : b.Holds Term.Direct) :
    ∃ v : Term, v.Direct ∧ ∀ (k : Term → Search α) (found : α) (s : State), s.bindings = b →
      env.evalTerm rules operand k found s = k v found s := by
  have hplugged := hb.plug_direct hoperand
  cases operand with
  | var x =>
    have hderef := hb.deref hoperand
    cases hvar : (b.deref (.var x)).isVar with
    | true =>
      obtain ⟨unbound, hunbound⟩ := Term.exists_of_isVar hvar
      rw [hunbound] at hderef
      refine ⟨.var unbound, hderef, fun k found s hs => ?_⟩
      simp only [Env.evalTerm, Search.withBindings, hs, hunbound, hderef.root unbound rfl, Bool.false_eq_true, if_false]
    | false =>
      refine ⟨b.plug (b.deref (.var x)), hb.plug_direct hderef, fun k found s hs => ?_⟩
      simp only [Env.evalTerm, Search.withBindings, hs]
      generalize b.deref (.var x) = u at hvar
      cases u <;> first | rfl | cases hvar
  | array items | set members | object fields =>
    refine ⟨_, hplugged, fun k found s hs => ?_⟩
    rw [Env.evalTerm, if_neg (by simpa [Term.needsEval] using hvalue), Search.withBindings, hs]
  | ref _ _ | call _ _ | arrayCompr _ _ | setCompr _ _ | objectCompr _ _ _ => cases hvalue
  | null | bool _ | number _ | string _ => exact ⟨_, hoperand, fun k found s _ => by simp only [Env.evalTerm]⟩

theorem Serves.operand {env : Env} {rules : RuleSemantics} {operand : Term} (hvalue : operand.needsEval = false)
    (hoperand : operand.Direct) {k k' : Term → Search α} (h : ∀ key : Term, key.Direct → Serves (k key) (k' key)) :
    Serves (env.evalTerm rules operand k) (env.evalTerm rules operand k') := by
  rintro found s t hs ⟨asked, rfl⟩
  obtain ⟨v, hv, heval⟩ := exists_evalTerm_operand (α := α) env rules hvalue hoperand hs.bindings
  rw [heval k found _ rfl, heval k' found t rfl]
  exact h v hv found _ t hs ⟨asked, rfl⟩

/-- The value of an operand is found without effects. -/
theorem Serves.operand_exhausted {env : Env} {rules : RuleSemantics} {operand : Term}
    (hvalue : operand.needsEval = false) (hoperand : operand.Direct) {k : Term → Search α}
    (h : ∀ key : Term, key.Direct → Serves (k key) exhausted) : Serves (env.evalTerm rules operand k) exhausted := by
  rintro found s t hs ⟨asked, rfl⟩
  obtain ⟨v, hv, heval⟩ := exists_evalTerm_operand (α := α) env rules hvalue hoperand hs.bindings
  rw [heval k found _ rfl]
  exact h v hv found _ t hs ⟨asked, rfl⟩

end Search

/-! ## Walks -/

namespace Env

variable {env : Env} {rules : RuleSemantics} {path : StorePath} {c : Cursor} {α : Type}

/-- What is looked up below a cursor is looked up in the store below a path. -/
structure Leads (env : Env) (rules : RuleSemantics) (path : StorePath) (c : Cursor) : Prop where
  settles : ∀ operand (s : State), s.scope.data = [] →
    ∃ requests, (env.settle rules operand c).run s = (.ok (some (.stored path)), { s with requests := requests })
  arrives : ∀ s : State, s.scope.data = [] →
    ∃ requests, (env.arrive rules c).run s = (.ok (env.root.at? path), { s with requests := requests })

/-- Where no rules have to do with a path, the store is asked. -/
theorem leads_data {path : DataPath} (hcovering : env.policy.covering? path = none)
    (hbelow : env.policy.below path = []) (hfailing : env.failing = []) (rules : RuleSemantics) :
    env.Leads rules (StorePath.ofKeys path) (.data path) := by
  refine ⟨fun operand s hdata => ⟨s.requests, ?_⟩, fun s hdata => ⟨(reading path s).requests, ?_⟩⟩
  · have hoverlaps : env.policy.overlaps path = false := by
      rw [Policy.overlaps, hcovering, Policy.hasBelow_eq, hbelow]
      rfl
    have htouches : s.scope.touches path = false := by rw [Scope.touches, hdata, List.any_nil]
    simp only [settle, Eval.run_bind, Eval.run_get, hoverlaps, htouches]
    rfl
  · rw [arrive, env.run_document_plain rules path hdata, env.run_baseDocument_stored rules hfailing hcovering hbelow]
    rfl

theorem leads_child (hroot : env.root.Addressed) (hfailing : env.failing = []) (parent : StorePath)
    (segment : PathSegment) (key : Term) : env.Leads rules (parent ++ [segment]) (.child parent segment key) :=
  ⟨fun _ s _ => ⟨s.requests, rfl⟩, fun s _ => run_arrive_child rules hroot.isJson hfailing parent segment key s⟩

/-- The walk goes on from a document, if there is one. -/
def walkFrom (env : Env) (rules : RuleSemantics) (operands : List Term) (k : Term → Search α) :
    Option Term → Search α
  | some v => env.walk rules (.value v) operands k
  | none => Search.exhausted

section Step

variable {operands : List Term} {k : Term → Search α} {key : Term}

/-- A part is asked for by its address. -/
theorem serves_ground (hroot : env.root.Addressed) (hfailing : env.failing = [])
    (hwalk : ∀ segment, Search.Serves (env.walk rules (.child path segment key) operands k)
      (env.walkFrom rules operands k (env.root.at? (path ++ [segment])))) (hkey : key.Direct) :
    Search.Serves
      (match PathSegment.ofTerm? key with
      | some segment => env.walk rules (.child path segment key) operands k
      | none => Search.afterSome (do return (← env.read path).bind (·.lookup key)) fun v =>
        env.walk rules (.value v) operands k)
      (env.walkFrom rules operands k ((env.root.at? path).bind (·.lookup key))) := by
  cases hsegment : PathSegment.ofTerm? key with
  | some segment =>
    have hpart : env.root.at? (path ++ [segment]) = (env.root.at? path).bind (·.lookup key) := by
      rw [Term.at?_snoc]
      exact Option.bind_congr fun v hv => (hroot.at? hv).isJson.child?_eq_lookup hkey.position hsegment
    rw [← hpart]
    exact hwalk segment
  | none =>
    have hnone : (env.root.at? path).bind (·.lookup key) = none :=
      Option.bind_eq_none_iff.2 fun v hv => (hroot.at? hv).isJson.lookup_eq_none hsegment
    rw [hnone]
    refine Search.Serves.asking (b := none) Search.serves_exhausted fun s _ =>
      ⟨s.requests.push ("read " ++ path.text), ?_⟩
    simp only [Eval.run_bind, env.run_read_unfailing hfailing, hnone]
    rfl

/-- The keys below a path are asked for, and the part under each. -/
theorem serves_each (hroot : env.root.Addressed) (hfailing : env.failing = [])
    (hwalk : ∀ segment key, Search.Serves (env.walk rules (.child path segment key) operands k)
      (env.walkFrom rules operands k (env.root.at? (path ++ [segment])))) (hkey : key.Direct) :
    Search.Serves
      (Search.afterSome (env.listKeys path) fun names => Search.each names fun name =>
        Search.after env.checkpoint fun _ => Search.unifying key name
          (match PathSegment.ofTerm? name with
          | some segment => env.walk rules (.child path segment name) operands k
          | none => env.walk rules (.value name) operands k))
      (Search.each (((env.root.at? path).map Term.entries).getD []) fun entry =>
        Search.after env.checkpoint fun _ =>
          Search.unifying key entry.1 (env.walk rules (.value entry.2) operands k)) := by
  have hlist : ∀ s : State, (env.listKeys path).run s = (.ok ((env.root.at? path).bind Term.childKeys?),
      { s with requests := s.requests.push ("list " ++ path.text) }) := by
    intro s
    rw [run_listKeys, hfailing]
    rfl
  refine Search.Serves.asking ?_ fun s _ => ⟨_, hlist s⟩
  cases hv : env.root.at? path with
  | none => exact Search.serves_exhausted
  | some v =>
    have haddressed := hroot.at? hv
    have hkeys := haddressed.childKeys?
    rw [Option.bind_some, Option.map_some, Option.getD_some]
    cases hnames : v.childKeys? with
    | none =>
      rw [hnames, Option.getD_none, eq_comm, List.map_eq_nil_iff] at hkeys
      rw [hkeys]
      exact Search.serves_exhausted
    | some names =>
      rw [hnames, Option.getD_some] at hkeys
      dsimp only
      rw [hkeys, Search.each_map]
      refine .each fun entry hentry => .checkpoint env ?_
      obtain ⟨hscalar, hdirect, segment, hsegment, hpart⟩ := haddressed.child?_of_entry hentry
      refine .unifying ?_ hkey hdirect hscalar
      have hat : env.root.at? (path ++ [segment]) = some entry.2 := by rw [Term.at?_snoc, hv, Option.bind_some, hpart]
      rw [hsegment]
      have hserves := hwalk segment entry.1
      rwa [hat] at hserves

end Step

/-- A walk through the store goes on as the walk through the document that is stored at the path. -/
theorem serves_walk (hroot : env.root.Addressed) (hfailing : env.failing = []) {operands : List Term}
    (hoperands : ∀ t ∈ operands, t.needsEval = false ∧ t.Direct) {k : Term → Search α}
    (hk : ∀ v, Search.Serves (k v) (k v)) (hc : env.Leads rules path c) :
    Search.Serves (env.walk rules c operands k) (env.walkFrom rules operands k (env.root.at? path)) := by
  induction operands generalizing path c with
  | nil =>
    rw [walk, Search.afterSome]
    refine Search.Serves.asking ?_ hc.arrives
    cases env.root.at? path with
    | none => exact Search.serves_exhausted
    | some v =>
      rw [walkFrom, walk]
      exact hk v
  | cons operand rest ih =>
    rw [List.forall_mem_cons] at hoperands
    obtain ⟨⟨hvalue, hoperand⟩, hrest⟩ := hoperands
    have hwalk : ∀ segment key, Search.Serves (env.walk rules (.child path segment key) rest k)
        (env.walkFrom rules rest k (env.root.at? (path ++ [segment]))) := fun segment key =>
      ih hrest (leads_child hroot hfailing path segment key)
    rw [walk, Search.afterSome]
    refine Search.Serves.asking ?_ (hc.settles operand)
    dsimp only
    cases hv : env.root.at? path with
    | none =>
      refine .operand_exhausted hvalue hoperand fun key hkey => ?_
      change Search.Serves _ (Search.withBindings fun _ => Search.exhausted)
      refine .withBindings fun b hb => ?_
      have hplugged := hb.plug_direct hkey
      have hground := serves_ground hroot hfailing (fun segment => hwalk segment (b.plug key)) hplugged
      have heach := serves_each hroot hfailing hwalk hplugged
      rw [hv] at hground heach
      split
      · exact hground
      · exact heach
    | some v =>
      rw [walkFrom, walk]
      change Search.Serves _ (env.evalTerm rules operand _)
      refine .operand hvalue hoperand fun key hkey => .withBindings fun b hb => ?_
      have hplugged := hb.plug_direct hkey
      have hground := serves_ground hroot hfailing (fun segment => hwalk segment (b.plug key)) hplugged
      have heach := serves_each hroot hfailing hwalk hplugged
      rw [hv] at hground heach
      dsimp only
      split
      · rw [Option.bind_some] at hground
        cases hu : v.lookup (b.plug key) with
        | none => rwa [hu] at hground
        | some u => rwa [hu] at hground
      · exact heach

end Env

/-- Notes the value at the end of a walk together with the environment. -/
def Search.visiting (v : Term) : Search (List (Term × Bindings)) :=
  Search.withBindings fun b => Search.collect fun found => found ++ [(v, b)]

/-- Following a reference through the store agrees with following it through the stored document. Below a path with
which neither rules nor overrides have to do, it arrives at the same values, in the same order and with the same
environments, if no key of the document and no value of a variable is the text of a position. -/
theorem Env.walk_stored {env : Env} {rules : RuleSemantics} {path : DataPath} {v : Term} {operands : List Term}
    {s : State} (hcovering : env.policy.covering? path = none) (hbelow : env.policy.below path = [])
    (hfailing : env.failing = []) (hroot : env.root.Addressed) (hv : env.root.at? (StorePath.ofKeys path) = some v)
    (hoperands : ∀ t ∈ operands, t.needsEval = false ∧ t.Direct) (hs : s.Direct) (found : List (Term × Bindings)) :
    let stored := env.walk rules (.data path) operands Search.visiting found s
    let inMemory := env.walk rules (.value v) operands Search.visiting found s
    stored.outcome = inMemory.outcome ∧ stored.found = inMemory.found := by
  have hvisiting : ∀ u, Search.Serves (Search.visiting u) (Search.visiting u) := fun u =>
    .withBindings fun b _ found s t _ hst => ⟨rfl, rfl, hst, rfl⟩
  have hleads := leads_data hcovering hbelow hfailing rules
  have hserves := serves_walk hroot hfailing hoperands hvisiting hleads
  rw [hv] at hserves
  have hend := hserves found s s hs ⟨s.requests, rfl⟩
  exact ⟨hend.outcome, hend.found⟩

end PolicyEngine
