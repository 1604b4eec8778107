import PolicyEngine.Proofs.Beside
import PolicyEngine.Proofs.Histories
import PolicyEngine.Proofs.Steps

/-!
Room in environments. How far variables are followed, and how deep terms are unified, is bounded by the number and the
size of all assignments. Where no variable depends on itself the bounds are never met: with the same values of all
variables, and more room, terms lead to the same terms, have the same values put in place and are unified alike. So a
walk along operands that take no evaluation is the same walk, and what it finds does not depend on the room.
-/
namespace PolicyEngine
namespace Bindings

variable {p : String → Prop} {b b' : Bindings} {t u : Term} {x : String}

/-! ## The same values -/

theorem Triangular.congr (hb : b.Triangular) (h : ∀ y, b'.lookup y = b.lookup y) : b'.Triangular := by
  refine ⟨hb.acyclic.of_uses ?_, fun y t hy => hb.keyed y t (h y ▸ hy)⟩
  rintro y z ⟨t, hy, hz⟩
  exact ⟨t, h y ▸ hy, hz⟩

/-- Where a term leads depends on the values of the variables. -/
theorem deref_congr (hb : b.Acyclic) (hb' : b'.Acyclic) (h : ∀ y, b'.lookup y = b.lookup y) (t : Term) :
    b'.deref t = b.deref t :=
  hb.deref_induction (P := fun t u => b'.deref t = u) (fun y hy => deref_unbound ((h y).trans hy))
    (fun _ => deref_of_not_isVar) (fun y _ _ hy ih => (hb'.deref_bound ((h y).trans hy)).trans ih) t

/-- What an environment stands for depends on the values of the variables. -/
theorem Triangular.substitution_congr (hb : b.Triangular) (h : ∀ y, b'.lookup y = b.lookup y) :
    b'.substitution = b.substitution := by
  have hb' := hb.congr h
  refine funext (hb.acyclic.induction fun y ih => ?_)
  cases hy : b.lookup y with
  | none => rw [substitution, substitution, plug_unbound hy, plug_unbound ((h y).trans hy)]
  | some t =>
    have ht := hb.keyed y t hy
    rw [substitution, substitution, hb.plug_bound hy, hb'.plug_bound ((h y).trans hy), hb.plug_eq_substitute ht,
      hb'.plug_eq_substitute ht]
    exact ht.substitute_congr fun z hz => ih z ⟨t, hy, hz⟩

/-! ## More room -/

/-- The same values of all variables, and at least the room. No variable depends on itself, and the values of the
variables of a kind have only such variables. -/
structure Roomier (p : String → Prop) (b b' : Bindings) : Prop where
  lookup : ∀ y, b'.lookup y = b.lookup y
  size : b.size ≤ b'.size
  triangular : b.Triangular
  closed : b.Closed p

namespace Roomier

variable (h : Roomier p b b')

include h

theorem deref (t : Term) : b'.deref t = b.deref t :=
  deref_congr h.triangular.acyclic (h.triangular.congr h.lookup).acyclic h.lookup t

theorem plug (ht : t.Keyed) : b'.plug t = b.plug t := by
  rw [(h.triangular.congr h.lookup).plug_eq_substitute ht, h.triangular.plug_eq_substitute ht,
    h.triangular.substitution_congr h.lookup]

theorem assign (hx : b.lookup x = none) (ht : t.Keyed) (hin : t.VarsIn p) (hocc : x ∉ (b.plug t).vars) :
    Roomier p (b.assign x (some t)) (b'.assign x (some t)) where
  lookup y := by rw [lookup_assign, lookup_assign, h.lookup]
  size := Nat.add_le_add_left h.size t.size
  triangular := h.triangular.assign hx ht hocc
  closed := h.closed.assign fun _ hu => Option.some.inj hu ▸ hin

end Roomier

theorem parallel_roomier : Parallel (fun t => t.Keyed ∧ t.VarsIn p) (Roomier p) where
  deref h ht := ⟨h.deref _, h.triangular.keyed.deref h.triangular.acyclic ht.1, h.closed.deref ht.2⟩
  plug h ht := h.plug ht.1
  item h ht := ⟨h.1.item ht, Term.pervasive_varsIn.array.1 h.2 _ ht⟩
  field h hf := ⟨⟨.ground (h.1.field hf).1, (Term.pervasive_varsIn.object.1 h.2 _ hf).1⟩, (h.1.field hf).2,
    (Term.pervasive_varsIn.object.1 h.2 _ hf).2⟩
  assign h hend _ hvalue hocc := h.assign (h.triangular.acyclic.lookup_of_deref hend) hvalue.1 hvalue.2 hocc

/-- The room there is makes no difference to unification. -/
theorem abreast_unify_roomier (ht : t.Keyed ∧ t.VarsIn p) (hu : u.Keyed ∧ u.VarsIn p) :
    Abreast (Roomier p) (unify t u) := by
  intro b b' h
  obtain ⟨m, hm⟩ := Nat.exists_eq_add_of_le h.size
  rw [← unifyTo_deeper h.triangular.acyclic h.triangular.keyed ht.1 hu.1 m, Nat.add_assoc, ← hm]
  exact parallel_roomier.abreast_unifyTo _ ht hu b b' h

end Bindings

/-! ## Searches -/

open Bindings (Roomier)

/-- A search is the same with more room, and leaves the environment as it was. -/
def Search.IgnoresRoom {α : Type} (p : String → Prop) (k : Search α) : Prop :=
  ∀ found s b', Roomier p s.bindings b' →
    k found { s with bindings := b' } = { k found s with state := { (k found s).state with bindings := b' } } ∧
      (k found s).state.bindings = s.bindings

namespace Search.IgnoresRoom

variable {α β : Type} {p : String → Prop} {k : Search α} {x y : Term}

theorem exhausted : (Search.exhausted : Search α).IgnoresRoom p := fun _ _ _ _ => ⟨rfl, rfl⟩

theorem collect (f : α → α) : (Search.collect f).IgnoresRoom p := fun _ _ _ _ => ⟨rfl, rfl⟩

/-- A computation that does not look at the environment makes no difference. -/
theorem after {m : Eval β} {k : β → Search α}
    (hm : ∀ s b', m.run { s with bindings := b' } = ((m.run s).1, { (m.run s).2 with bindings := b' }))
    (hk : ∀ v, (k v).IgnoresRoom p) : (Search.after m k).IgnoresRoom p := by
  intro found s b' h
  have hback : (m.run s).2.bindings = s.bindings := congrArg (fun r => r.2.bindings) (hm s s.bindings)
  simp only [Search.after, hm s b']
  generalize m.run s = r at hback ⊢
  obtain ⟨result, s₁⟩ := r
  cases result with
  | error e => exact ⟨rfl, hback⟩
  | ok v =>
    obtain ⟨hsame, hbindings⟩ := hk v found s₁ b' (hback ▸ h)
    exact ⟨hsame, hbindings.trans hback⟩

/-- A search that looks at the environment, but in the same way with more room. -/
theorem withBindings {k : Bindings → Search α} (hsame : ∀ b b', Roomier p b b' → k b' = k b)
    (hk : ∀ b b', Roomier p b b' → (k b).IgnoresRoom p) : (Search.withBindings k).IgnoresRoom p := by
  intro found s b' h
  rw [Search.withBindings, Search.withBindings]
  dsimp only
  rw [hsame _ _ h]
  exact hk _ _ h found s b' h

theorem unifying (hx : x.Keyed ∧ x.VarsIn p) (hy : y.Keyed ∧ y.VarsIn p) (hk : k.IgnoresRoom p) :
    (Search.unifying x y k).IgnoresRoom p := by
  have hadds := Bindings.adds_unify (x.varsIn_of_forall fun _ => trivial) (y.varsIn_of_forall fun _ => trivial)
  intro found s b' h
  simp only [Search.unifying, Search.extending]
  rcases (Bindings.abreast_unify_roomier hx hy).cases h with ⟨hnone, hnone'⟩ | ⟨c, c', hsome, hsome', hc⟩
  · rw [hnone, hnone']
    exact ⟨rfl, rfl⟩
  · rw [hsome, hsome']
    obtain ⟨hsame, hback⟩ := hk found { s with bindings := c } c' hc
    dsimp only at hsame hback ⊢
    rw [hsame, hback, hadds.undo_mark hsome', hadds.undo_mark hsome]
    exact ⟨rfl, rfl⟩

theorem each {l : List β} {k : β → Search α} (hk : ∀ a ∈ l, (k a).IgnoresRoom p) : (Search.each l k).IgnoresRoom p := by
  induction l with
  | nil => exact exhausted
  | cons a rest ih =>
    rw [List.forall_mem_cons] at hk
    intro found s b' h
    obtain ⟨hsame, hback⟩ := hk.1 found s b' h
    simp only [Search.each, hsame]
    generalize k a found s = r at hback ⊢
    obtain ⟨outcome, found₁, s₁⟩ := r
    dsimp only at hback
    rcases outcome with e | flow
    · exact ⟨rfl, hback⟩
    · cases flow with
      | stop => exact ⟨rfl, hback⟩
      | more =>
        obtain ⟨hrest, hbindings⟩ := ih hk.2 found₁ s₁ b' (hback ▸ h)
        exact ⟨hrest, hbindings.trans hback⟩

end Search.IgnoresRoom

/-! ## Walks along operands that take no evaluation -/

/-- A variable that stands for no root document. -/
def Rootless (name : String) : Prop := isRoot name = false

/-- An operand that takes no evaluation, whose objects have ground keys and in which no root document occurs. -/
structure Term.Inert (t : Term) : Prop where
  value : t.needsEval = false
  keyed : t.Keyed
  rootless : t.VarsIn Rootless

theorem Term.Inert.of_ground {t : Term} (hground : t.isGround = true) (hvalue : t.needsEval = false) : t.Inert :=
  ⟨hvalue, .ground hground, .of_isGround hground⟩

namespace Env

variable {env : Env} {rules : RuleSemantics} {α : Type} {k : Term → Search α}

/-- The value of an operand that takes no evaluation is the operand with all values in place. -/
theorem evalTerm_inert {t : Term} (ht : t.Inert) {s : State} (hb : s.bindings.Triangular)
    (hrootless : s.bindings.Closed Rootless) (found : α) :
    env.evalTerm rules t k found s = k (s.bindings.plug t) found s := by
  have hvalue := ht.value
  cases t with
  | var x =>
    have hderef := hrootless.deref ht.rootless
    rw [← hb.plug_deref, evalTerm, Search.withBindings]
    generalize hlead : s.bindings.deref (.var x) = u at hderef ⊢
    cases u with
    | var unbound =>
      have hother : isRoot unbound = false := Term.varsIn_var.1 hderef
      rw [Bindings.plug_unbound (hb.acyclic.lookup_of_deref hlead)]
      dsimp only
      rw [hother, if_neg Bool.false_ne_true]
    | _ => rfl
  | array items | set members | object fields =>
    rw [evalTerm, if_neg (by simpa [Term.needsEval] using hvalue), Search.withBindings]
  | null | bool _ | number _ | string _ =>
    rw [Bindings.plug_of_isGround rfl]
    simp only [evalTerm]
  | ref _ _ | call _ _ | arrayCompr _ _ | setCompr _ _ | objectCompr _ _ _ => cases hvalue

theorem ignoresRoom_evalTerm {t : Term} (ht : t.Inert)
    (hk : ∀ v : Term, v.Keyed ∧ v.VarsIn Rootless → (k v).IgnoresRoom Rootless) :
    (env.evalTerm rules t k).IgnoresRoom Rootless := by
  intro found s b' h
  have hclosed : b'.Closed Rootless := fun y t hy ht => h.closed y t hy (h.lookup y ▸ ht)
  rw [evalTerm_inert ht h.triangular h.closed]
  rw [evalTerm_inert ht (s := { s with bindings := b' }) (h.triangular.congr h.lookup) hclosed, h.plug ht.keyed]
  exact hk _ ⟨h.triangular.keyed_plug ht.keyed, h.closed.plug ht.rootless⟩ found s b' h

/-- A walk through a ground value is the same with more room. -/
theorem ignoresRoom_walk {path : List Term} (hpath : ∀ t ∈ path, t.Inert) {v : Term} (hv : v.isGround = true)
    (hk : ∀ v, (k v).IgnoresRoom Rootless) :
    (env.walk rules (.value v) path k).IgnoresRoom Rootless := by
  induction path generalizing v with
  | nil =>
    rw [walk]
    exact hk v
  | cons operand rest ih =>
    rw [List.forall_mem_cons] at hpath
    rw [walk]
    change (env.evalTerm rules operand _).IgnoresRoom _
    refine ignoresRoom_evalTerm hpath.1 fun key hkey => .withBindings (fun b b' h => ?_) fun b b' h => ?_
    · rw [h.plug hkey.1]
    have hplugged := And.intro (h.triangular.keyed_plug hkey.1) (h.closed.plug hkey.2)
    dsimp only
    split
    · split
      · next u hu => exact ih hpath.2 (Term.hereditary_isGround.lookup hv hu)
      · exact .exhausted
    · refine .each fun entry hentry => .after env.run_checkpoint_setBindings fun _ => ?_
      obtain ⟨hname, hvalue⟩ := Term.hereditary_isGround.entries hv hentry
      exact .unifying hplugged ⟨.ground hname, .of_isGround hname⟩ (ih hpath.2 hvalue)

end Env
end PolicyEngine
