import PolicyEngine.Proofs.Descent

/-!
Environments beside each other. Two environments of one size that agree on the variables of a kind agree on every term
with only such variables: it leads to the same term, has the same values put in place and is unified alike, and what
such terms add to the environments leaves them beside each other. That terms are unified alike follows, for any two
related environments, from what following variables, putting values in place and binding a variable have to do with the
relation.
-/
namespace PolicyEngine

/-! ## Instances -/

namespace Term

variable {f g : String → Term}

mutual
/-- An instance of a term depends on what is put in place of the variables that occur in it. -/
theorem instance_congr : ∀ t : Term, (∀ y ∈ t.vars, f y = g y) → t.substitute f = t.substitute g
  | .var y, h => h y (List.mem_singleton_self y)
  | .array items, h => congrArg Term.array (instances_congr items h)
  | .object fields, h => by rw [substitute, substitute, fieldInstances_congr fields h]
  | .set members, h => by rw [substitute, substitute, instances_congr members h]
  | .ref head operands, h => by
    rw [vars, List.forall_mem_append] at h
    rw [substitute, substitute, instance_congr head h.1, instances_congr operands h.2]
  | .call operator arguments, h => by
    rw [vars, List.forall_mem_append] at h
    rw [substitute, substitute, instance_congr operator h.1, instances_congr arguments h.2]
  | .null, _ | .bool _, _ | .number _, _ | .string _, _ => rfl
  | .arrayCompr _ _, _ | .setCompr _ _, _ | .objectCompr _ _ _, _ => rfl
theorem instances_congr :
    ∀ ts : List Term, (∀ y ∈ listVars ts, f y = g y) → substituteList f ts = substituteList g ts
  | [], _ => rfl
  | t :: rest, h => by
    rw [listVars, List.forall_mem_append] at h
    rw [substituteList, substituteList, instance_congr t h.1, instances_congr rest h.2]
theorem fieldInstances_congr :
    ∀ fs : List (Term × Term), (∀ y ∈ fieldsVars fs, f y = g y) → substituteFields f fs = substituteFields g fs
  | [], _ => rfl
  | (k, v) :: rest, h => by
    rw [fieldsVars, List.forall_mem_append, List.forall_mem_append] at h
    rw [substituteFields, substituteFields, instance_congr k h.1.1, instance_congr v h.1.2,
      fieldInstances_congr rest h.2]
end

end Term

/-! ## Values -/

namespace Bindings

/-- The values of variables of a kind have only variables of that kind. -/
def Closed (p : String → Prop) (b : Bindings) : Prop := ∀ y t, p y → b.lookup y = some t → t.VarsIn p

/-- Two environments of one size with the same values for the variables of a kind, which are closed. The second of them
binds another variable. -/
structure Beside (p : String → Prop) (x : String) (c : Term) (b b' : Bindings) : Prop where
  other : ¬p x
  length : b'.assignments.length = b.assignments.length
  size : b'.size = b.size
  lookup : ∀ {y}, p y → b'.lookup y = b.lookup y
  bound : b'.lookup x = some c
  closed : b.Closed p

variable {p : String → Prop} {x y : String} {c t u value : Term} {b b' : Bindings}

theorem Closed.follow (hb : b.Closed p) (n : Nat) (ht : t.VarsIn p) : (b.follow n t).VarsIn p := by
  induction n generalizing t with
  | zero => simpa only [Bindings.follow] using ht
  | succ n ih =>
    cases t with
    | var y =>
      rw [Bindings.follow]
      split
      · next hlookup => exact ih (hb _ _ (Term.varsIn_var.1 ht) hlookup)
      · exact ht
    | _ => exact ht

theorem Closed.deref (hb : b.Closed p) (ht : t.VarsIn p) : (b.deref t).VarsIn p :=
  deref_eq_follow b t ▸ hb.follow _ ht

theorem Closed.plugTo (hb : b.Closed p) (n : Nat) (ht : t.VarsIn p) : (b.plugTo n t).VarsIn p := by
  induction n generalizing t with
  | zero => exact ht
  | succ n ih =>
    rw [Bindings.plugTo]
    split
    · exact ht
    · refine Term.pervasive_varsIn.substitute (fun y hy => ?_) t ht
      have hderef := hb.deref hy
      split
      · next hvar => rwa [hvar] at hderef
      · exact ih hderef

theorem Closed.plug (hb : b.Closed p) (ht : t.VarsIn p) : (b.plug t).VarsIn p :=
  plug_eq_plugTo b t ▸ hb.plugTo _ ht

theorem Closed.assign {value : Option Term} (hb : b.Closed p) (hvalue : ∀ t, value = some t → t.VarsIn p) :
    (b.assign y value).Closed p := by
  intro z t hz hlookup
  rw [lookup_assign] at hlookup
  split at hlookup
  · exact hvalue t hlookup
  · exact hb z t hz hlookup

theorem forall_plugKeys {V : Term → Prop} {fields : List (Term × Term)} (hfields : ∀ f ∈ fields, V f.2) :
    ∀ f ∈ b.plugKeys fields, V f.2 := by
  intro f hf
  obtain ⟨g, hg, rfl⟩ := List.mem_map.1 (Term.mem_sortFields hf)
  exact hfields g hg

/-- A term that is no variable stands for a string only if it is that string. -/
theorem plug_eq_string_iff (ht : t.isVar = false) {text : String} : b.plug t = .string text ↔ t = .string text := by
  rw [plug_eq_plugTo]
  cases b.assignments.length with
  | zero => rfl
  | succ n =>
    rw [plugTo]
    split
    · rfl
    · cases t with
      | var y => cases ht
      | object fields =>
        rw [Term.substitute]
        split <;> simp [Term.objectOf]
      | set members =>
        rw [Term.substitute]
        split <;> simp [Term.setOf]
      | _ => simp [Term.substitute]

namespace Beside

variable (h : Beside p x c b b')

include h

theorem follow (n : Nat) (ht : t.VarsIn p) : b'.follow n t = b.follow n t := by
  induction n generalizing t with
  | zero => simp only [Bindings.follow]
  | succ n ih =>
    cases t with
    | var y =>
      rw [Bindings.follow, Bindings.follow, h.lookup (Term.varsIn_var.1 ht)]
      split
      · next hlookup => exact ih (h.closed _ _ (Term.varsIn_var.1 ht) hlookup)
      · rfl
    | _ => rfl

theorem deref (ht : t.VarsIn p) : b'.deref t = b.deref t := by
  rw [deref_eq_follow, deref_eq_follow, h.length, h.follow _ ht]

theorem plugTo (n : Nat) (ht : t.VarsIn p) : b'.plugTo n t = b.plugTo n t := by
  induction n generalizing t with
  | zero => rfl
  | succ n ih =>
    rw [Bindings.plugTo, Bindings.plugTo]
    refine if_congr Iff.rfl rfl (Term.instance_congr t fun y hy => ?_)
    have hy : (Term.var y).VarsIn p := Term.varsIn_var.2 (ht y hy)
    rw [h.deref hy]
    have hderef := h.closed.deref hy
    split
    · rfl
    · exact ih hderef

theorem plug (ht : t.VarsIn p) : b'.plug t = b.plug t := by
  rw [plug_eq_plugTo, plug_eq_plugTo, h.length, h.plugTo _ ht]

/-- The variable has its value where it is bound. -/
theorem plug_bound (hc : c.isGround = true) : b'.plug (.var x) = c := plug_of_bound h.bound hc

theorem plug_eq_string_iff (ht : ∀ y, t = .var y → p y) {text : String} :
    b'.plug t = .string text ↔ b.plug t = .string text := by
  cases hvar : t.isVar with
  | false => rw [Bindings.plug_eq_string_iff hvar, Bindings.plug_eq_string_iff hvar]
  | true =>
    obtain ⟨y, rfl⟩ := Term.exists_of_isVar hvar
    rw [h.plug (Term.varsIn_var.2 (ht y rfl))]

theorem root? (ht : ∀ y, t = .var y → p y) : b'.root? t = b.root? t := by
  cases t with
  | var y => rw [Bindings.root?, Bindings.root?, h.lookup (ht y rfl)]
  | _ => rfl

/-! ## Assignments -/

theorem assign {value : Option Term} (hy : p y) (hvalue : ∀ t, value = some t → t.VarsIn p) :
    Beside p x c (b.assign y value) (b'.assign y value) where
  other := h.other
  length := congrArg (· + 1) h.length
  size := congrArg (_ + ·) h.size
  lookup hz := by rw [lookup_assign, lookup_assign, h.lookup hz]
  bound := by
    rw [lookup_assign, if_neg, h.bound]
    rintro rfl
    exact h.other hy
  closed := h.closed.assign hvalue

end Beside

/-! ## Extending alike -/

/-- Environments that are extended alike: if one succeeds then so does the other, and the results are related again. -/
def Abreast (R : Bindings → Bindings → Prop) (extend : Bindings → Option Bindings) : Prop :=
  ∀ b b', R b b' → Option.Rel R (extend b) (extend b')

/-- Related environments make no difference to terms with a property that their parts have. Such terms lead to the same
terms and have the same values put in place, and a variable in which following ends may be bound to such a term. -/
structure Parallel (V : Term → Prop) (R : Bindings → Bindings → Prop) : Prop where
  deref : ∀ {b b' t}, R b b' → V t → b'.deref t = b.deref t ∧ V (b.deref t)
  plug : ∀ {b b' t}, R b b' → V t → b'.plug t = b.plug t
  item : ∀ {items t}, V (.array items) → t ∈ items → V t
  field : ∀ {fields f}, V (.object fields) → f ∈ fields → V f.1 ∧ V f.2
  assign : ∀ {b b' t x value}, R b b' → b.deref t = .var x → V (.var x) → V value → x ∉ (b.plug value).vars →
    R (b.assign x (some value)) (b'.assign x (some value))

/-- What was added to an environment can be taken back. -/
theorem Adds.undo_mark {extend : Bindings → Option Bindings} (hadds : Adds (fun _ => True) extend)
    (h : extend b = some b') : b'.undo b.mark = b :=
  Bindings.undo_mark (hadds b b' (fun _ _ => ⟨trivial, fun t _ => t.varsIn_of_forall fun _ => trivial⟩) h).2

/-- Binding the pattern of an entry only adds to an environment, whatever occurs in it. -/
theorem adds_bindEntry_any (key : Option Term) (value : Term) (entry : Term × Term) :
    Adds (fun _ => True) (bindEntry key value entry) :=
  adds_bindEntry (fun t _ => t.varsIn_of_forall fun _ => trivial) (value.varsIn_of_forall fun _ => trivial)
    ⟨entry.1.varsIn_of_forall fun _ => trivial, entry.2.varsIn_of_forall fun _ => trivial⟩

section Abreast

variable {R : Bindings → Bindings → Prop} {V : Term → Prop} {extend : Bindings → Option Bindings}

theorem Abreast.cases (hext : Abreast R extend) (h : R b b') :
    (extend b = none ∧ extend b' = none) ∨ ∃ d d', extend b = some d ∧ extend b' = some d' ∧ R d d' := by
  have hrel := hext b b' h
  generalize extend b = r, extend b' = r' at hrel ⊢
  cases hrel with
  | some hd => exact .inr ⟨_, _, rfl, rfl, hd⟩
  | none => exact .inl ⟨rfl, rfl⟩

theorem abreast_some : Abreast R some := fun _ _ h => .some h

theorem abreast_none : Abreast R fun _ => none := fun _ _ _ => .none

theorem Abreast.bind {f g : Bindings → Option Bindings} (hf : Abreast R f) (hg : Abreast R g) :
    Abreast R fun b => (f b).bind g := by
  intro b b' h
  rcases hf.cases h with ⟨hnone, hnone'⟩ | ⟨d, d', hsome, hsome', hd⟩
  · simp only [hnone, hnone']
    exact .none
  · simp only [hsome, hsome']
    exact hg d d' hd

theorem Abreast.foldlM {β : Type} {f : Bindings → β → Option Bindings} {l : List β}
    (hf : ∀ a ∈ l, Abreast R fun b => f b a) : Abreast R fun b => l.foldlM f b := by
  induction l with
  | nil => exact abreast_some
  | cons a rest ih =>
    rw [List.forall_mem_cons] at hf
    simp only [List.foldlM_cons]
    exact hf.1.bind (ih hf.2)

namespace Parallel

variable (hR : Parallel V R)

include hR

theorem plugKeys {fields : List (Term × Term)} (h : R b b') (hfields : ∀ f ∈ fields, V f.1) :
    b'.plugKeys fields = b.plugKeys fields := by
  rw [Bindings.plugKeys, Bindings.plugKeys]
  exact congrArg Term.sortFields (List.map_congr_left fun f hf => congrArg (·, f.2) (hR.plug h (hfields f hf)))

theorem bind (h : R b b') (hend : b.deref t = .var y) (hy : V (.var y)) (hvalue : V value) :
    Option.Rel R (b.bind y value) (b'.bind y value) := by
  by_cases hwild : y = wildcard
  · rw [Bindings.bind, Bindings.bind, if_pos (by simpa using hwild), if_pos (by simpa using hwild)]
    exact .some h
  have hplug := hR.plug h hvalue
  by_cases hocc : y ∈ (b.plug value).vars
  · rw [bind_of_mem hwild hocc, bind_of_mem hwild (hplug ▸ hocc)]
    exact .none
  · rw [bind_of_not_mem hwild hocc, bind_of_not_mem hwild (hplug ▸ hocc)]
    exact .some (hR.assign h hend hy hvalue hocc)

/-- Terms that the environments make no difference to are unified alike. -/
theorem abreast_unifyTo (n : Nat) (ht : V t) (hu : V u) : Abreast R (unifyTo n t u) := by
  induction n generalizing t u with
  | zero => exact abreast_none
  | succ n ih =>
    intro b b' h
    obtain ⟨htd, htV⟩ := hR.deref h ht
    obtain ⟨hud, huV⟩ := hR.deref h hu
    generalize ht' : b.deref t = t' at htd htV
    generalize hu' : b.deref u = u' at hud huV
    rw [unifyTo, unifyTo, htd, hud, ht', hu']
    split
    · split
      · exact .some h
      · exact hR.bind h ht' htV huV
    · exact hR.bind h ht' htV huV
    · exact hR.bind h hu' huV htV
    · split
      · exact Abreast.foldlM (fun a ha => ih (hR.item htV (List.of_mem_zip ha).1)
          (hR.item huV (List.of_mem_zip ha).2)) b b' h
      · exact .none
    · rw [hR.plugKeys h fun f hf => (hR.field htV hf).1, hR.plugKeys h fun f hf => (hR.field huV hf).1]
      dsimp only
      split
      · refine Abreast.foldlM (fun a ha => ?_) b b' h
        exact ih (forall_plugKeys (fun f hf => (hR.field htV hf).2) _ (List.of_mem_zip ha).1)
          (forall_plugKeys (fun f hf => (hR.field huV hf).2) _ (List.of_mem_zip ha).2)
      · exact .none
    · rw [hR.plug h htV, hR.plug h huV]
      split
      · exact .some h
      · exact .none
    · split
      · exact .some h
      · exact .none

end Parallel

end Abreast

theorem parallel_beside : Parallel (Term.VarsIn p) (Beside p x c) where
  deref h ht := ⟨h.deref ht, h.closed.deref ht⟩
  plug h ht := h.plug ht
  item h := Term.pervasive_varsIn.array.1 h _
  field h := Term.pervasive_varsIn.object.1 h _
  assign h _ hy hvalue _ := h.assign (Term.varsIn_var.1 hy) fun _ ht => Option.some.inj ht ▸ hvalue

theorem abreast_unify (ht : t.VarsIn p) (hu : u.VarsIn p) : Abreast (Beside p x c) (unify t u) := by
  intro b b' h
  rw [unify, unify, h.size]
  exact parallel_beside.abreast_unifyTo _ ht hu b b' h

theorem abreast_bindLocal (ht : t.VarsIn p) (hvalue : value.VarsIn p) : Abreast (Beside p x c) (bindLocal t value) := by
  cases t with
  | var y =>
    intro b b' h
    simp only [bindLocal, shadow]
    split
    · exact .some h
    · exact .some (h.assign (Term.varsIn_var.1 ht) fun u hu => Option.some.inj hu ▸ hvalue)
  | _ => exact abreast_unify ht hvalue

theorem abreast_bindEntry {key : Option Term} {entry : Term × Term} (hkey : ∀ t, key = some t → t.VarsIn p)
    (ht : t.VarsIn p) (hentry : entry.1.VarsIn p ∧ entry.2.VarsIn p) :
    Abreast (Beside p x c) (bindEntry key t entry) := by
  cases key with
  | none => exact abreast_bindLocal ht hentry.2
  | some pattern => exact (abreast_bindLocal (hkey pattern rfl) hentry.1).bind (abreast_bindLocal ht hentry.2)

theorem Beside.hide (h : Beside p x c b b') (hy : p y) : Beside p x c (b.hide y) (b'.hide y) := by
  rw [Bindings.hide, Bindings.hide, h.lookup hy]
  split
  · exact h.assign hy (by rintro _ ⟨⟩)
  · exact h

theorem abreast_hideAll {symbols : List Term} (hsymbols : ∀ y, .var y ∈ symbols → p y) :
    Abreast (Beside p x c) fun b => some (b.hideAll symbols) := by
  intro b b' h
  refine .some ?_
  induction symbols generalizing b b' with
  | nil => exact h
  | cons t rest ih =>
    have hrest : ∀ y, .var y ∈ rest → p y := fun y hy => hsymbols y (List.mem_cons_of_mem _ hy)
    cases t with
    | var y => exact ih hrest _ _ (h.hide (hsymbols y List.mem_cons_self))
    | _ => exact ih hrest _ _ h

end Bindings
end PolicyEngine
