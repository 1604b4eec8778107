import PolicyEngine.Proofs.Conjunction
import PolicyEngine.Proofs.Enumeration
import PolicyEngine.Proofs.Results
import PolicyEngine.Proofs.Room
import PolicyEngine.Proofs.Unnoticed

/-!
Walks along keys and along variables. A walk that goes on under an unbound variable arrives, as far as that variable is
bound to a key equal to a given one, where a walk that goes on under the given key arrives, with the same values and
with the same meaning of all variables that have to do with the walk.
-/
namespace PolicyEngine

/-! ## Arrivals -/

/-- A value at the end of a walk, with what the variables stand for there. -/
structure Arrival where
  value : Term
  means : String → Term

/-- The same value, and the same meaning of the variables of a kind. -/
def Arrival.Same (p : String → Prop) (a a' : Arrival) : Prop := a'.value = a.value ∧ ∀ y, p y → a'.means y = a.means y

/-- Notes a value with what the variables stand for and asks for more. -/
def Search.arrival (value : Term) : Search (List Arrival) :=
  Search.withBindings fun b => Search.collect fun found => found ++ [⟨value, b.substitution⟩]

namespace Search

variable {α β : Type} {b : β} {rest : List β} {k : β → Search α} {found : α} {s : State} {flow : Flow}

/-- Where more is asked for the search goes on with the rest of a list. -/
theorem each_of_more (h : (k b found s).outcome = .ok .more) :
    each (b :: rest) k found s = each rest k (k b found s).found (k b found s).state := by
  simp only [each]
  generalize k b found s = r at h
  obtain ⟨outcome, found', s'⟩ := r
  obtain rfl : outcome = .ok .more := h
  rfl

/-- A search through a list that does not fail does not fail with its first element. -/
theorem exists_flow_of_each (h : (each (b :: rest) k found s).outcome = .ok flow) :
    ∃ flow', (k b found s).outcome = .ok flow' := by
  simp only [each] at h
  generalize k b found s = r at h
  obtain ⟨outcome, found', s'⟩ := r
  cases outcome with
  | error e => cases h
  | ok flow' => exact ⟨flow', rfl⟩

end Search

/-- Where the walks from a value along a path arrive, in the order they are found. -/
def Env.arrivals (env : Env) (rules : RuleSemantics) (v : Term) (path : List Term) (s : State) :
    Except EvalError (List Arrival) :=
  let r := env.walk rules (.value v) path Search.arrival [] s
  r.outcome.map fun _ => r.found

/-! ### More assignments -/

namespace Bindings

variable {p : String → Prop} {x y : String} {c : Term} {b : Bindings}

/-- A number of assignments, of a size, in which no variable is ever looked up. -/
def hidden (count size : Nat) : List (String × Option Term) :=
  List.replicate count (wildcard, none) ++ [(wildcard, none), (wildcard, some (.array (List.replicate size .null)))]

/-- Puts hidden assignments below all others. -/
def spare (count size : Nat) (b : Bindings) : Bindings := ⟨b.assignments ++ hidden count size⟩

theorem length_spare (count size : Nat) (b : Bindings) :
    (b.spare count size).assignments.length = b.assignments.length + (count + 2) := by
  simp [spare, hidden]

theorem sizeOfAll_append (as as' : List (String × Option Term)) :
    sizeOfAll (as ++ as') = sizeOfAll as + sizeOfAll as' := by
  induction as with
  | nil => exact (Nat.zero_add _).symm
  | cons a rest ih => rw [List.cons_append, sizeOfAll, sizeOfAll, ih, Nat.add_assoc]

theorem sizeOfAll_hidden (count size : Nat) : sizeOfAll (hidden count size) = size + 1 := by
  have hnulls : Term.sizeList (List.replicate size .null) = size := by
    induction size with
    | zero => rfl
    | succ size ih =>
      rw [List.replicate_succ, Term.sizeList, ih]
      exact Nat.add_comm 1 size
  induction count with
  | zero =>
    change 0 + (Term.sizeList (List.replicate size .null) + 1 + 0) = size + 1
    rw [hnulls, Nat.zero_add]
  | succ count ih => exact (Nat.zero_add _).trans ih

theorem size_spare (count size : Nat) (b : Bindings) : (b.spare count size).size = b.size + (size + 1) := by
  rw [Bindings.size, spare, sizeOfAll_append, sizeOfAll_hidden]
  rfl

theorem lookup_hidden (count size : Nat) : ((hidden count size).find? fun a => a.1 == y).bind Prod.snd = none := by
  induction count with
  | zero =>
    rw [hidden, List.replicate_zero, List.nil_append, List.find?_cons]
    split
    · rfl
    · next hother =>
      rw [List.find?_cons_of_neg (by rw [hother]; exact nofun)]
      rfl
  | succ count ih =>
    rw [hidden, List.replicate_succ, List.cons_append, List.find?_cons]
    split
    · rfl
    · exact ih

theorem lookup_spare (count size : Nat) (b : Bindings) : (b.spare count size).lookup y = b.lookup y := by
  rw [lookup, lookup, spare, List.find?_append]
  cases b.assignments.find? _ with
  | some a => rfl
  | none => exact lookup_hidden count size

/-- Binding a variable has the same effect on the others as more assignments that are never looked up. -/
theorem Closed.beside_assign (h : b.Closed p) (hx : ¬p x) (count size : Nat) :
    Beside p x c (b.spare (count + 1) (size + c.size)) ((b.spare count size).assign x (some c)) where
  other := hx
  length := by
    rw [Bindings.assign, List.length_cons, length_spare, length_spare]
    omega
  size := by
    rw [size_spare]
    change c.size + (b.spare count size).size = _
    rw [size_spare]
    omega
  lookup {y} hy := by
    rw [lookup_assign, if_neg, lookup_spare, lookup_spare]
    rintro rfl
    exact hx hy
  bound := by rw [lookup_assign, if_pos rfl]
  closed y t hy ht := h y t hy (lookup_spare _ _ b ▸ ht)

/-- An unbound variable is bound to a ground term. -/
theorem unify_ground (hx : b.lookup x = none) (hwild : x ≠ wildcard) (hc : c.isGround = true) :
    b.unify (.var x) c = some (b.assign x (some c)) := by
  have hvar : c.isVar = false := by
    cases c <;> first | rfl | cases hc
  have hn : (Term.var x).size + c.size + b.size = c.size + b.size + 1 := by
    simp only [Term.size]
    omega
  have hderef : b.deref c = c := deref_of_not_isVar hvar
  rw [unify, hn, unifyTo_left (deref_unbound hx) (hderef.symm ▸ hvar), hderef, bind_of_not_mem hwild]
  rw [plug_of_isGround hc, Term.vars_of_isGround c hc]
  exact List.not_mem_nil

end Bindings

/-- The walks from a value along a path arrive at these places, also where variables are followed further: how far that
is done is bounded by the number and the size of the assignments, and hidden assignments add to both. Where no variable
depends on itself and the operands take no evaluation, the second follows from the first. -/
structure Env.Arrives (env : Env) (rules : RuleSemantics) (v : Term) (path : List Term) (s : State)
    (found : List Arrival) : Prop where
  arrives : env.arrivals rules v path s = .ok found
  settled : ∃ bound, ∀ count size, bound ≤ count → bound ≤ size →
    env.arrivals rules v path { s with bindings := s.bindings.spare count size } = .ok found

/-! ### Settled walks -/

theorem Bindings.Triangular.roomier_spare {p : String → Prop} {b : Bindings} (hb : b.Triangular) (hclosed : b.Closed p)
    (count size : Nat) : b.Roomier p (b.spare count size) :=
  ⟨fun _ => lookup_spare count size b, size_spare count size b ▸ Nat.le_add_right _ _, hb, hclosed⟩

theorem Search.ignoresRoom_arrival {p : String → Prop} (v : Term) : (Search.arrival v).IgnoresRoom p :=
  .withBindings (fun b b' h => by rw [h.triangular.substitution_congr h.lookup]) fun _ _ _ => .collect _

/-- Where no variable depends on itself, a walk along operands that take no evaluation arrives at the same places
however far variables are followed. -/
theorem Env.Arrives.of_triangular {env : Env} {rules : RuleSemantics} {v : Term} {path : List Term} {s : State}
    {found : List Arrival} (hv : v.isGround = true) (hpath : ∀ t ∈ path, t.Inert) (hb : s.bindings.Triangular)
    (hrootless : s.bindings.Closed Rootless) (h : env.arrivals rules v path s = .ok found) :
    env.Arrives rules v path s found := by
  refine ⟨h, 0, fun count size _ _ => ?_⟩
  have hroom := hb.roomier_spare hrootless count size
  rw [arrivals, (Env.ignoresRoom_walk hpath hv Search.ignoresRoom_arrival [] s _ hroom).1]
  exact h

/-! ## One step of a walk -/

namespace Env

variable (env : Env) (rules : RuleSemantics) {α : Type} {x : String} {c : Term}

/-- A term that is ground and needs no evaluation is its own value. -/
theorem evalTerm_ground (hc : c.isGround = true) (hvalue : c.needsEval = false) (k : Term → Search α) :
    env.evalTerm rules c k = k c := by
  have hplug : (Search.withBindings fun b => k (b.plug c)) = k c := by
    funext found s
    rw [Search.withBindings, Bindings.plug_of_isGround hc]
  cases c with
  | array items => rwa [evalTerm, if_neg (by simpa [Term.needsEval] using hvalue)]
  | set members => rwa [evalTerm, if_neg (by simpa [Term.needsEval] using hvalue)]
  | object fields => rwa [evalTerm, if_neg (by simpa [Term.needsEval] using hvalue)]
  | null | bool _ | number _ | string _ => simp only [evalTerm]
  | var _ | ref _ _ | call _ _ => cases hc
  | arrayCompr _ _ | setCompr _ _ | objectCompr _ _ _ => cases hvalue

/-- A walk goes on below what is looked up under a key. -/
theorem walk_ground (hc : c.isGround = true) (hvalue : c.needsEval = false) (v : Term) (rest : List Term)
    (k : Term → Search α) :
    env.walk rules (.value v) (c :: rest) k =
      match v.lookup c with
      | some u => env.walk rules (.value u) rest k
      | none => Search.exhausted := by
  rw [walk]
  change env.evalTerm rules c _ = _
  rw [env.evalTerm_ground rules hc hvalue]
  funext found s
  rw [Search.withBindings, Bindings.plug_of_isGround hc]
  exact congrFun (congrFun (if_pos hc) found) s

/-- At the end of the path is the value itself. -/
theorem walk_end (v : Term) (k : Term → Search α) : env.walk rules (.value v) [] k = k v := by
  rw [walk]
  rfl

/-- Where the walks under a key arrive. -/
theorem arrivals_ground (hc : c.isGround = true) (hvalue : c.needsEval = false) (v : Term) (rest : List Term)
    (s : State) :
    env.arrivals rules v (c :: rest) s =
      match v.lookup c with
      | some u => env.arrivals rules u rest s
      | none => .ok [] := by
  rw [arrivals, env.walk_ground rules hc hvalue]
  cases v.lookup c <;> rfl

/-- Among the entries of a collection there is one with the key, or the walks under the key arrive nowhere. -/
theorem flatMap_matching {v : Term} (henum : v.Enumerable) (hc : c.isGround = true) (hvalue : c.needsEval = false)
    {rest : List Term} {s : State} {found : List Arrival} (h : env.arrivals rules v (c :: rest) s = .ok found) :
    ((v.entries.filter fun e => e.1 == c).flatMap fun _ => found) = found := by
  have hone := henum.filter_entries c
  cases hlookup : v.lookup c with
  | some u =>
    obtain ⟨e, he⟩ : ∃ e, (v.entries.filter fun e => e.1 == c) = [e] :=
      List.length_eq_one_iff.1 (by rw [← List.length_map Prod.snd, hone, hlookup]; rfl)
    rw [he, List.flatMap_singleton]
  | none =>
    rw [arrivals_ground env rules hc hvalue, hlookup] at h
    rw [hlookup] at hone
    cases h
    rw [List.map_eq_nil_iff.1 hone, List.flatMap_nil]

/-- The walk below an entry of a collection, with the key of the entry as the value of a variable. -/
def visit (x : String) (rest : List Term) (entry : Term × Term) : Search (List Arrival) :=
  Search.after env.checkpoint fun _ =>
    Search.unifying (.var x) entry.1 (env.walk rules (.value entry.2) rest Search.arrival)

/-- Under an unbound variable a walk visits all entries in turn. -/
theorem walk_unbound {s : State} (hx : s.bindings.lookup x = none) (hroot : isRoot x = false) (v : Term)
    (rest : List Term) (found : List Arrival) :
    env.walk rules (.value v) (.var x :: rest) Search.arrival found s =
      Search.each v.entries (env.visit rules x rest) found s := by
  rw [walk]
  change env.evalTerm rules (.var x) _ found s = _
  rw [evalTerm, Search.withBindings, Bindings.deref_unbound hx]
  dsimp only
  rw [if_neg (by rw [hroot]; exact Bool.false_ne_true), Search.withBindings, Bindings.plug_unbound hx]
  rfl

end Env

/-! ## Walks of ideal rules -/

namespace Coupling

variable {ι : Type} {C : Coupling ι} {w : C.World} {rules : RuleSemantics} {rules' : ι → RuleSemantics}

/-- Where no variable is ruled out a walk arrives at the same places on both sides, on one of them after others. -/
theorem simulates_arrivals (h : C.Lawful) (hr : RulesAnswer C rules rules') (hnames : ∀ y, C.names y)
    (htargets : ∀ t, TargetIn C t) (v : Term) (path : List Term) (before : List Arrival) :
    C.Simulates w True { rel := fun found found' => found' = before ++ found, stops := False }
      (C.env.walk rules (.value v) path Search.arrival)
      fun i => C.env'.walk (rules' i) (.value v) path Search.arrival := by
  refine simulates_walk h hr path (fun t _ => (termsAnswer h hr t).1)
    (fun _ => Term.properAll_of_forall hnames htargets path) (fun _ => v.varsIn_of_forall hnames) fun u => ?_
  refine simulates_withBindings h fun b => simulates_collect h (fun _ _ => trivial) ?_
  rintro _ a _ _ rfl
  exact List.append_assoc before a _

end Coupling

/-- Where an evaluation arrives the ideal rules arrive, given the answers of built-ins at its end. -/
theorem Env.arrivals_ideal {env : Env} {f : String → List Term → Option Term} {s : State}
    (hreg : env.registry.Regular) (hdistinct : env.policy.Distinct) (hf : env.Fixed f) (hcalm : s.Calm env)
    (hfaithful : s.Faithful env) (hanswers : BuiltinAnswer.By f s.answers) {v : Term}
    {path : List Term} {found : List Arrival} (hok : env.arrivals env.rules v path s = .ok found) :
    ∃ answers, BuiltinAnswer.By f answers ∧
      ∀ᶠ n in Filter.atTop, env.arrivals (env.idealTo n) v path { s with answers := answers } = .ok found := by
  refine Env.found_ideal hf hcalm hfaithful hanswers (fun hlaw => ?_) (fun _ _ => ?_) hok
  · exact Coupling.simulates_arrivals hlaw (Coupling.framing.rulesAnswer hlaw _) (fun _ => trivial)
      (fun _ _ _ => trivial) v path []
  · exact Coupling.simulates_arrivals (Pairing.toIdeal.lawful hreg).coupling
      (Pairing.toIdeal.rulesAnswer_rulesTo hdistinct hreg _) (fun _ => trivial) (fun _ _ _ => trivial) v path []

namespace Pairing.alike

variable {env : Env} {f : String → List Term → Option Term} {σ : Scope} {n : Nat} {x : String}

theorem notes_arrivals (hsteady : env.Steady f .any) (v : Term) (path : List Term) :
    Notes env f σ (env.walk (env.idealTo n) (.value v) path Search.arrival) := fun before =>
  Coupling.simulates_arrivals (lawful hsteady).coupling (rulesAnswer hsteady (Nat.le_refl n)) (fun _ => trivial)
    (fun _ _ _ => trivial) v path before

theorem notes_visit (hsteady : env.Steady f .any) (rest : List Term) (entry : Term × Term) :
    Notes env f σ (env.visit (env.idealTo n) x rest entry) := by
  intro before
  have hlaw := (lawful hsteady).coupling
  refine Coupling.Computes.after (B := Eq) hlaw ((hlaw.checkpoint σ).guard fun _ => trivial) fun _ _ =>
    Coupling.Simulates.unifying hlaw (fun _ => ?_)
      ((notes_arrivals hsteady entry.2 rest before).guard fun _ => trivial)
  exact ⟨Term.varsIn_of_forall (fun _ => trivial) _, Term.varsIn_of_forall (fun _ => trivial) _⟩

end Pairing.alike

/-! ## Along a variable -/

namespace Bystander

variable (B : Bystander)

/-- The same arrivals behind others, with the bystander bound. -/
def Arrive (before found found' : List Arrival) : Prop :=
  ∃ new, found' = before ++ new ∧ List.Forall₂ (Arrival.Same B.others) found new ∧ ∀ a ∈ new, a.means B.name = B.value

variable {B}

theorem ignores_arrival (hvalue : B.value.isGround = true) (before : List Arrival) (v : Term) :
    (Search.arrival v).Ignores B (B.Arrive before) := by
  rintro found _ s b' ⟨new, rfl, hsame, hmeans⟩ hs hb
  refine ⟨rfl, ⟨new ++ [Arrival.mk v b'.substitution], List.append_assoc before new _, ?_, ?_⟩, rfl, rfl, fun _ _ => hs⟩
  · refine List.rel_append hsame (.cons ⟨rfl, fun y hy => ?_⟩ .nil)
    exact hb.plug (Term.varsIn_var.2 hy)
  · refine List.forall_mem_append.2 ⟨hmeans, fun a ha => ?_⟩
    rw [List.mem_singleton.1 ha]
    exact hb.plug_bound hvalue

end Bystander

/-- A state in which a walk sets out. All documents remembered are meant, built-ins have answered by a function, and a
variable is unbound to which neither the documents nor the values of the variables of a kind lead. -/
structure State.Outset (env : Env) (f : String → List Term → Option Term) (p : String → Prop) (x : String) (s : State) :
    Prop where
  compiled : ∃ modules, Policy.compile modules = .ok env.policy
  regular : env.registry.Regular
  confined : env.Confined f p
  calm : s.Calm env
  faithful : s.Faithful env
  answered : BuiltinAnswer.By f s.answers
  overrides : s.scope.VarsIn p fun _ => True
  closed : s.bindings.Closed p
  other : ¬p x
  named : x ≠ wildcard
  unbound : s.bindings.lookup x = none

namespace State.Outset

open Pairing (Alike)
open Pairing.alike (notes_arrivals notes_visit)

variable {env : Env} {f : String → List Term → Option Term} {p : String → Prop} {x : String} {s t : State} {n : Nat}
  {c : Term} {rest : List Term} {entry : Term × Term} {count size : Nat} {before : List Arrival} {flow : Flow}

theorem steady (h : s.Outset env f p x) : env.Steady f .any := Env.steady_any h.regular h.confined.fixed

theorem not_isRoot (h : s.Outset env f p x) : isRoot x = false := by
  rw [← Bool.not_eq_true]
  exact fun hroot => h.other (h.confined.roots x hroot)

/-- The walk below an entry arrives at the places at which it arrives when the variable is left alone, and the variable
stands for the key of the entry. -/
theorem visit_found (h : s.Outset env f p x) (hrest : Term.ProperAll p (fun _ => True) rest)
    (hkey : entry.1.isGround = true) (hvalue : entry.2.isGround = true) (ht : Alike env f .any s.scope t t)
    (hb : t.bindings = s.bindings.spare count size)
    (hout : (env.visit (env.idealTo n) x rest entry before t).outcome = .ok flow) :
    ∃ new, (env.visit (env.idealTo n) x rest entry before t).found = before ++ new ∧
      (∀ a ∈ new, a.means x = entry.1) ∧
        ∀ u : State, Alike env f .any s.scope u u →
          u.bindings = s.bindings.spare (count + 1) (size + entry.1.size) → ∀ found,
            env.arrivals (env.idealTo n) entry.2 rest u = .ok found → List.Forall₂ (Arrival.Same p) found new := by
  have hbind : (s.bindings.spare count size).unify (.var x) entry.1 =
      some ((s.bindings.spare count size).assign x (some entry.1)) :=
    Bindings.unify_ground ((Bindings.lookup_spare ..).trans h.unbound) h.named hkey
  -- where the variable is bound, it is a bystander of the walk
  have hends := (Bystander.ignored_ideal (B := ⟨env, f, x, entry.1, p⟩) h.confined h.regular n).walk
    (Bystander.ignores_all (Bystander.ignored_ideal h.confined h.regular n) rest) hrest
    (c := .value entry.2) (Term.VarsIn.of_isGround hvalue) (fun v _ => Bystander.ignores_arrival hkey before v)
    [] before { t with bindings := s.bindings.spare (count + 1) (size + entry.1.size) } _
    ⟨[], (List.append_nil before).symm, .nil, nofun⟩
    ⟨h.overrides.agrees ht.scope, ⟨ht.calm.1, ht.calm.2⟩, ht.answered⟩ (h.closed.beside_assign h.other count size)
  simp only [Env.visit, Search.after, env.run_checkpoint_calm ht.calm, Search.unifying, Search.extending, hb, hbind]
    at hout ⊢
  obtain ⟨new, hnew, hsame, hmeans⟩ := hends.found
  refine ⟨new, hnew, hmeans, fun u hu hub found hfound => ?_⟩
  obtain ⟨flow', hout', rfl⟩ := Except.map_eq_ok hfound
  have hut : Alike env f .any s.scope u { t with bindings := s.bindings.spare (count + 1) (size + entry.1.size) } :=
    ⟨hub.symm, Vocabulary.bindings_any _, ht.overrides, hu.scope, ht.scope, hu.calm, ⟨ht.calm.1, ht.calm.2⟩,
      hu.answered, ht.answered⟩
  rw [(notes_arrivals h.steady entry.2 rest).found hut hout' [] (hends.outcome.symm.trans hout)] at hsame
  exact hsame

/-- Of the places at which the walks below entries arrive, those where the variable is bound to an equal of a key are
the ones at which the walk below the entry with that key arrives when the variable is left alone. -/
theorem visits_found (h : s.Outset env f p x) (hrest : Term.ProperAll p (fun _ => True) rest)
    {entries : List (Term × Term)} {found : List Arrival}
    (hground : ∀ e ∈ entries, e.1.isGround = true ∧ e.2.isGround = true)
    (hfound : ∀ e ∈ entries, (e.1 == c) = true → ∃ u : State, Alike env f .any s.scope u u ∧
      u.bindings = s.bindings.spare (count + 1) (size + e.1.size) ∧
        env.arrivals (env.idealTo n) e.2 rest u = .ok found)
    (ht : Alike env f .any s.scope t t) (hb : t.bindings = s.bindings.spare count size)
    (hout : (Search.each entries (env.visit (env.idealTo n) x rest) before t).outcome = .ok flow) :
    ∃ new, (Search.each entries (env.visit (env.idealTo n) x rest) before t).found = before ++ new ∧
      List.Forall₂ (Arrival.Same p) ((entries.filter fun e => e.1 == c).flatMap fun _ => found)
        (new.filter fun a => a.means x == c) := by
  induction entries generalizing before t with
  | nil => exact ⟨[], (List.append_nil before).symm, .nil⟩
  | cons e rest' ih =>
    rw [List.forall_mem_cons] at hground hfound
    obtain ⟨flow', hvisit⟩ := Search.exists_flow_of_each hout
    obtain ⟨new, hnew, hmeans, hsame⟩ := h.visit_found hrest hground.1.1 hground.1.2 ht hb hvisit
    obtain ⟨hmore, halike⟩ := (notes_visit h.steady rest e).returns ht before hvisit
    rw [Search.each_of_more hmore, hnew] at hout ⊢
    obtain ⟨later, hlater, hrel⟩ := ih hground.2 hfound.2 halike.right (halike.bindings.trans hb) hout
    refine ⟨new ++ later, hlater.trans (List.append_assoc ..), ?_⟩
    rw [List.filter_append]
    cases hkey : e.1 == c with
    | true =>
      obtain ⟨u, hu, hub, hrun⟩ := hfound.1 hkey
      have hall : (new.filter fun a => a.means x == c) = new :=
        List.filter_eq_self.2 fun a ha => by rw [hmeans a ha, hkey]
      rw [hall, List.filter_cons, if_pos hkey, List.flatMap_cons]
      exact List.rel_append (hsame u hu hub found hrun) hrel
    | false =>
      have hnone : (new.filter fun a => a.means x == c) = [] :=
        List.filter_eq_nil_iff.2 fun a ha => by rw [hmeans a ha, hkey]; exact Bool.false_ne_true
      rw [hnone, List.filter_cons, if_neg (by rw [hkey]; exact Bool.false_ne_true)]
      exact hrel

/-- Where the evaluation arrives with hidden assignments the ideal rules arrive, nested deep enough. -/
theorem arrivals_ideal (h : s.Outset env f p x) {v : Term} {path : List Term} {found : List Arrival}
    (hok : env.arrivals env.rules v path { s with bindings := s.bindings.spare count size } = .ok found) :
    ∃ u : State, Alike env f .any s.scope u u ∧ u.bindings = s.bindings.spare count size ∧
      ∀ᶠ n in Filter.atTop, env.arrivals (env.idealTo n) v path u = .ok found := by
  obtain ⟨modules, hcompile⟩ := h.compiled
  have hcalm : { s with bindings := s.bindings.spare count size }.Calm env := ⟨h.calm.1, h.calm.2⟩
  obtain ⟨answers, hby, hev⟩ := env.arrivals_ideal h.regular (Policy.distinct_of_compile hcompile) h.confined.fixed
    hcalm (h.faithful.setBindings _) h.answered hok
  have hcalm : { s with bindings := s.bindings.spare count size, answers := answers }.Calm env := ⟨h.calm.1, h.calm.2⟩
  exact ⟨{ s with bindings := s.bindings.spare count size, answers := answers },
    ⟨rfl, Vocabulary.bindings_any _, Vocabulary.scope_any _, .refl _, .refl _, hcalm, hcalm, hby, hby⟩, rfl, hev⟩

/-- A walk under a key arrives where a walk under an unbound variable arrives with that variable bound to an equal. -/
theorem found_of_key (h : s.Outset env f p x) (hrest : Term.ProperAll p (fun _ => True) rest) {v : Term}
    (hv : v.isGround = true) (henum : v.Enumerable) (hc : c.isGround = true) (hvalue : c.needsEval = false)
    {found all : List Arrival} (hfound : env.Arrives env.rules v (c :: rest) s found)
    (hall : env.Arrives env.rules v (.var x :: rest) s all) :
    List.Forall₂ (Arrival.Same p) found (all.filter fun a => a.means x == c) := by
  -- the key by whose size the environment of the one walk is larger than that of the other
  obtain ⟨k, hk⟩ := henum.exists_key c
  obtain ⟨bound, hbound⟩ := hfound.settled
  obtain ⟨bound', hbound'⟩ := hall.settled
  obtain ⟨u, hu, hub, hkey⟩ := h.arrivals_ideal (hbound (max bound bound' + 1) (max bound bound' + k.size) (by omega)
    (by omega))
  obtain ⟨t, ht, htb, hvar⟩ := h.arrivals_ideal (hbound' (max bound bound') (max bound bound') (by omega) (by omega))
  obtain ⟨n, hkey, hvar⟩ := (hkey.and hvar).exists
  have hunbound : t.bindings.lookup x = none := htb ▸ (Bindings.lookup_spare ..).trans h.unbound
  have hbelow : ∀ e ∈ v.entries, (e.1 == c) = true → env.arrivals (env.idealTo n) e.2 rest u = .ok found := by
    intro e he hec
    rw [← hkey, env.arrivals_ground _ hc hvalue, (Term.lookup_eq_some_iff henum).2 ⟨e.1, he, hec⟩]
  obtain ⟨flow, hout, rfl⟩ := Except.map_eq_ok hvar
  rw [env.walk_unbound _ hunbound h.not_isRoot] at hout ⊢
  obtain ⟨new, hnew, hrel⟩ := h.visits_found hrest (fun e he => Term.hereditary_isGround.entries hv he)
    (fun e he hec => ⟨u, hu, hk e he hec ▸ hub, hbelow e he hec⟩) ht htb hout
  rw [hnew, List.nil_append]
  rwa [env.flatMap_matching _ henum hc hvalue hkey] at hrel

/-- Where no variable depends on itself, this holds of all walks along operands that take no evaluation. -/
theorem found_of_inert (h : s.Outset env f p x) (hb : s.bindings.Triangular)
    (hrootless : s.bindings.Closed Rootless) (hrest : Term.ProperAll p (fun _ => True) rest)
    (hinert : ∀ t ∈ rest, t.Inert) {v : Term} (hv : v.isGround = true) (henum : v.Enumerable)
    (hc : c.isGround = true) (hvalue : c.needsEval = false) {found all : List Arrival}
    (hfound : env.arrivals env.rules v (c :: rest) s = .ok found)
    (hall : env.arrivals env.rules v (.var x :: rest) s = .ok all) :
    List.Forall₂ (Arrival.Same p) found (all.filter fun a => a.means x == c) := by
  have hkey : ∀ t ∈ c :: rest, t.Inert := List.forall_mem_cons.2 ⟨.of_ground hc hvalue, hinert⟩
  have hvar : ∀ t ∈ Term.var x :: rest, t.Inert :=
    List.forall_mem_cons.2 ⟨⟨rfl, .var, Term.varsIn_var.2 h.not_isRoot⟩, hinert⟩
  exact h.found_of_key hrest hv henum hc hvalue (.of_triangular hv hkey hb hrootless hfound)
    (.of_triangular hv hvar hb hrootless hall)

end State.Outset

/-- Looking up a key agrees with enumerating. An enumeration of a collection gives its entries, the keys in order, and
is exhausted after the last. What is looked up under a key is what the entry with an equal key holds. Hence, if neither
of the two walks fails, a walk under a key arrives where the walk under an unbound variable, which does not occur in
the rest of the path, arrives with the variable bound to an equal of the key. -/
theorem lookup_agrees_with_enumeration {v : Term} (hv : v.isGround = true) (henum : v.Enumerable) :
    ((∀ n, ((Enumeration.notStarted v).after n).next.1 = v.entries[n]?) ∧
      (∀ n, v.entries.length < n → (Enumeration.notStarted v).after n = .exhausted) ∧
      Term.SortedBy Prod.fst v.entries ∧
      (∀ items, v = .array items → v.entries.map Prod.fst = (List.range items.length).map Term.ofNat) ∧
      (v.isScalar = true → v.entries = [])) ∧
    (∀ c u : Term, c.isGround = true → (v.lookup c = some u ↔ ∃ k, (k, u) ∈ v.entries ∧ (k == c) = true)) ∧
    ∀ (env : Env) (f : String → List Term → Option Term) (p : String → Prop) (x : String) (s : State) (c : Term)
      (rest : List Term) (found all : List Arrival), s.Outset env f p x → Term.ProperAll p (fun _ => True) rest →
      c.isGround = true → c.needsEval = false → env.Arrives env.rules v (c :: rest) s found →
      env.Arrives env.rules v (.var x :: rest) s all →
      List.Forall₂ (Arrival.Same p) found (all.filter fun a => a.means x == c) := by
  refine ⟨⟨Enumeration.next_after henum, fun n hn => Enumeration.after_length henum hn, henum.sorted, ?_, ?_⟩, ?_, ?_⟩
  · rintro items rfl
    exact Term.keys_entries_array items
  · intro hscalar
    cases v <;> first | rfl | cases hscalar
  · exact fun c u _ => Term.lookup_eq_some_iff henum
  · intro env f p x s c rest found all hs hrest hc hvalue hfound hall
    exact hs.found_of_key hrest hv henum hc hvalue hfound hall

/-! ### Rows of a table -/

/-- With the core library only the stored documents matter. -/
theorem Env.confined_core {env : Env} {p : String → Prop} {draw : Builtin.Draw}
    (hregistry : env.registry = Registry.core draw) (hstrict : env.options.strict = true)
    (hroots : ∀ y, isRoot y = true → p y) (hroot : env.root.VarsIn p) :
    env.Confined (Registry.coreAnswer draw env.time) p where
  roots := hroots
  root := hroot
  fixed := Env.fixed_core hregistry hstrict
  builtins b hb context args host v hargs h := by
    have hground := Builtin.keeps_core Term.hereditary_isGround (hregistry ▸ hb) context args host
      (List.all_eq_true.1 hargs)
    exact .of_isGround (hground _ h v rfl)
  answers name args := by
    intro t ht
    simp only [Registry.coreAnswer, Builtin.pickedBy] at ht
    split at ht
    · cases ht
      exact .of_isGround rfl
    · split at ht
      · split at ht <;> cases ht
        exact .of_isGround rfl
      · cases ht

namespace Rows

/-- A table of two rows. -/
def table : Term := .array [.object [(.string "id", .string "a")], .object [(.string "id", .string "b")]]

def env : Env := { policy := (Policy.compile []).toOption.getD {}, registry := Registry.core }

def start : State := { clock := { step := 1 } }

/-- The second position as a floating-point number. -/
def second : Term := .number (.float (.ofInt 1))

variable {s : State} {b : Bindings} {x : String} {k : Term}

theorem substitution_of_unbound (hb : ∀ y, b.lookup y = none) : b.substitution = Term.var :=
  funext fun y => Bindings.plug_unbound (hb y)

theorem substitution_assign (hb : ∀ y, b.lookup y = none) (hk : k.isGround = true) :
    (b.assign x (some k)).substitution = fun y => if y = x then k else .var y := by
  funext y
  split
  · next heq =>
    subst heq
    exact Bindings.plug_of_bound (by rw [Bindings.lookup_assign, if_pos rfl]) hk
  · next hne => exact Bindings.plug_unbound (by rw [Bindings.lookup_assign, if_neg (Ne.symm hne), hb])

theorem enumerable_table : table.Enumerable := by
  change 2 ≤ Number.safeInteger.natAbs
  decide

theorem lookup_row (id : Term) : (Term.object [(.string "id", id)]).lookup (.string "id") = some id := by
  have henum : (Term.object [(.string "id", id)]).Enumerable := List.pairwise_singleton _ _
  exact (Term.lookup_eq_some_iff henum).2 ⟨_, List.mem_singleton_self _, Term.beq_refl _⟩

theorem arrivals_second (hb : ∀ y, s.bindings.lookup y = none) :
    env.arrivals env.rules table [second, .string "id"] s = .ok [⟨.string "b", Term.var⟩] := by
  have hrow : table.lookup second = some (.object [(.string "id", .string "b")]) :=
    (Term.lookup_eq_some_iff enumerable_table).2 ⟨Term.ofNat 1, by simp [table, Term.entries], by decide +kernel⟩
  rw [env.arrivals_ground _ rfl rfl, hrow]
  dsimp only
  rw [env.arrivals_ground _ rfl rfl, lookup_row]
  dsimp only
  rw [Env.arrivals, env.walk_end, Search.arrival, Search.withBindings, substitution_of_unbound hb]
  rfl

theorem visit_row (hs : s.Calm env) (hb : ∀ y, s.bindings.lookup y = none) (hk : k.isGround = true) (id : Term)
    (found : List Arrival) :
    env.visit env.rules "x" [.string "id"] (k, .object [(.string "id", id)]) found s =
      ⟨.ok .more, found ++ [⟨id, fun y => if y = "x" then k else .var y⟩], s⟩ := by
  have hundo : (s.bindings.assign "x" (some k)).undo s.bindings.mark = s.bindings :=
    Bindings.undo_mark (List.suffix_cons _ _)
  rw [Env.visit, Search.after, env.run_checkpoint_calm hs]
  dsimp only
  rw [Search.unifying, Search.extending, Bindings.unify_ground (hb _) (by decide) hk]
  dsimp only
  rw [env.walk_ground _ rfl rfl, lookup_row]
  dsimp only
  rw [env.walk_end, Search.arrival, Search.withBindings, substitution_assign hb hk]
  dsimp only [Search.collect]
  rw [hundo]

theorem arrivals_all (hs : s.Calm env) (hb : ∀ y, s.bindings.lookup y = none) :
    env.arrivals env.rules table [.var "x", .string "id"] s =
      .ok [⟨.string "a", fun y => if y = "x" then Term.ofNat 0 else .var y⟩,
        ⟨.string "b", fun y => if y = "x" then Term.ofNat 1 else .var y⟩] := by
  have hvisit := fun {k : Term} (hk : k.isGround = true) id found => visit_row hs hb hk id found
  rw [Env.arrivals, env.walk_unbound _ (hb _) (by decide)]
  simp only [table, Term.entries, List.zipIdx_cons, List.zipIdx_nil, List.map_cons, List.map_nil, Search.each]
  rw [hvisit rfl]
  dsimp only
  rw [hvisit rfl]
  rfl

theorem arrives_of_inert {path : List Term} {found : List Arrival} (hpath : ∀ t ∈ path, t.Inert)
    (h : env.arrivals env.rules table path start = .ok found) : env.Arrives env.rules table path start found :=
  .of_triangular rfl hpath Bindings.sound_empty.triangular nofun h

theorem outset : start.Outset env (Registry.coreAnswer .least env.time) (· ≠ "x") "x" where
  compiled := ⟨[], Except.eq_ok_of_isOk (by decide +kernel) {}⟩
  regular := Registry.regular_core _
  confined := Env.confined_core rfl rfl (by rintro y hy rfl; revert hy; decide) (.of_isGround rfl)
  calm := ⟨rfl, rfl⟩
  faithful := .of_empty rfl (Nat.le_refl 0)
  answered := nofun
  overrides := ⟨nofun, nofun, nofun, nofun⟩
  closed := nofun
  other := fun h => h rfl
  named := by decide
  unbound := rfl

/-- The walk to the second row, whose position is given as a floating-point number, and the one to all rows. -/
theorem walks_table : table.lookup second = some (.object [(.string "id", .string "b")]) ∧
    ((Enumeration.notStarted table).after 2).next.1 = none ∧
    List.Forall₂ (Arrival.Same (· ≠ "x")) [⟨.string "b", Term.var⟩]
      (List.filter (fun a => a.means "x" == second)
        [⟨.string "a", fun y => if y = "x" then Term.ofNat 0 else .var y⟩,
          ⟨.string "b", fun y => if y = "x" then Term.ofNat 1 else .var y⟩]) := by
  have hagrees := lookup_agrees_with_enumeration (v := table) rfl enumerable_table
  refine ⟨(hagrees.2.1 _ _ rfl).2 ⟨Term.ofNat 1, by simp [table, Term.entries], by decide +kernel⟩, hagrees.1.1 2, ?_⟩
  have hid : (Term.string "id").Inert := .of_ground rfl rfl
  have hkey : ∀ t ∈ [second, .string "id"], t.Inert :=
    List.forall_mem_cons.2 ⟨.of_ground rfl rfl, List.forall_mem_singleton.2 hid⟩
  have hvar : ∀ t ∈ [Term.var "x", .string "id"], t.Inert :=
    List.forall_mem_cons.2 ⟨⟨rfl, .var, Term.varsIn_var.2 rfl⟩, List.forall_mem_singleton.2 hid⟩
  exact hagrees.2.2 env _ _ "x" start second [.string "id"] _ _ outset ⟨trivial, trivial⟩ rfl rfl
    (arrives_of_inert hkey (arrivals_second fun _ => rfl))
    (arrives_of_inert hvar (arrivals_all ⟨rfl, rfl⟩ fun _ => rfl))

end Rows

end PolicyEngine
