import PolicyEngine.Proofs.Hereditary

/-!
The variables that occur in terms, environments and scopes. Evaluation brings no new ones: whatever is built
from terms, looked up in them or unified with them has only the variables of the terms it came from.
-/
namespace PolicyEngine

/-! ## Terms -/

/-- Only the variables of a kind occur in a term. -/
def Term.VarsIn (p : String → Prop) (t : Term) : Prop := ∀ x ∈ t.vars, p x

namespace Term

variable {p : String → Prop}

theorem VarsIn.mono {q : String → Prop} {t : Term} (h : t.VarsIn p) (hpq : ∀ x, p x → q x) : t.VarsIn q :=
  fun x hx => hpq x (h x hx)

@[simp] theorem varsIn_var {x : String} : (Term.var x).VarsIn p ↔ p x := by simp [VarsIn, vars]

@[simp] theorem varsIn_array {items : List Term} : (Term.array items).VarsIn p ↔ ∀ t ∈ items, t.VarsIn p := by
  simp only [VarsIn, vars, mem_listVars]
  exact ⟨fun h t ht x hx => h x ⟨t, ht, hx⟩, fun h x ⟨t, ht, hx⟩ => h t ht x hx⟩

@[simp] theorem varsIn_set {members : List Term} : (Term.set members).VarsIn p ↔ ∀ t ∈ members, t.VarsIn p := by
  simp only [VarsIn, vars, mem_listVars]
  exact ⟨fun h t ht x hx => h x ⟨t, ht, hx⟩, fun h x ⟨t, ht, hx⟩ => h t ht x hx⟩

@[simp] theorem varsIn_object {fields : List (Term × Term)} :
    (Term.object fields).VarsIn p ↔ ∀ f ∈ fields, f.1.VarsIn p ∧ f.2.VarsIn p := by
  simp only [VarsIn, vars, mem_fieldsVars]
  constructor
  · intro h f hf
    exact ⟨fun x hx => h x ⟨f, hf, .inl hx⟩, fun x hx => h x ⟨f, hf, .inr hx⟩⟩
  · rintro h x ⟨f, hf, hx | hx⟩
    · exact (h f hf).1 x hx
    · exact (h f hf).2 x hx

@[simp] theorem varsIn_ref {head : Term} {operands : List Term} :
    (Term.ref head operands).VarsIn p ↔ head.VarsIn p ∧ ∀ t ∈ operands, t.VarsIn p := by
  simp only [VarsIn, vars, List.mem_append, mem_listVars]
  constructor
  · intro h
    exact ⟨fun x hx => h x (.inl hx), fun t ht x hx => h x (.inr ⟨t, ht, hx⟩)⟩
  · rintro ⟨h₁, h₂⟩ x (hx | ⟨t, ht, hx⟩)
    · exact h₁ x hx
    · exact h₂ t ht x hx

@[simp] theorem varsIn_call {operator : Term} {arguments : List Term} :
    (Term.call operator arguments).VarsIn p ↔ operator.VarsIn p ∧ ∀ t ∈ arguments, t.VarsIn p := by
  simp only [VarsIn, vars, List.mem_append, mem_listVars]
  constructor
  · intro h
    exact ⟨fun x hx => h x (.inl hx), fun t ht x hx => h x (.inr ⟨t, ht, hx⟩)⟩
  · rintro ⟨h₁, h₂⟩ x (hx | ⟨t, ht, hx⟩)
    · exact h₁ x hx
    · exact h₂ t ht x hx

theorem VarsIn.of_isGround {t : Term} (h : t.isGround = true) : t.VarsIn p := by
  simp [VarsIn, vars_of_isGround t h]

theorem VarsIn.of_isScalar {t : Term} (h : t.isScalar = true) : t.VarsIn p := by
  cases t with
  | null | bool _ | number _ | string _ => exact .of_isGround rfl
  | _ => cases h

/-- That only variables of a kind occur is inherited. -/
theorem pervasive_varsIn : Pervasive (Term.VarsIn p) where
  scalar := .of_isScalar
  array := varsIn_array
  set := varsIn_set
  object := varsIn_object
  ref := varsIn_ref
  call := varsIn_call

theorem VarsIn.setOf {ts : List Term} (h : ∀ t ∈ ts, t.VarsIn p) : (setOf ts).VarsIn p := pervasive_varsIn.setOf h

theorem VarsIn.objectOf {fs : List (Term × Term)} (h : ∀ f ∈ fs, f.1.VarsIn p ∧ f.2.VarsIn p) :
    (objectOf fs).VarsIn p :=
  pervasive_varsIn.objectOf h

theorem VarsIn.lookup {t key v : Term} (h : t.VarsIn p) (hv : t.lookup key = some v) : v.VarsIn p :=
  pervasive_varsIn.lookup h hv

theorem VarsIn.lookupKeys {t v : Term} {keys : List String} (h : t.VarsIn p) (hv : t.lookupKeys keys = some v) :
    v.VarsIn p :=
  pervasive_varsIn.lookupKeys h hv

theorem VarsIn.entries {t : Term} {e : Term × Term} (h : t.VarsIn p) (he : e ∈ t.entries) :
    e.1.VarsIn p ∧ e.2.VarsIn p :=
  pervasive_varsIn.entries h he

theorem VarsIn.at? {t v : Term} {path : StorePath} (h : t.VarsIn p) (hv : t.at? path = some v) : v.VarsIn p :=
  pervasive_varsIn.at? h hv

theorem VarsIn.childKeys? {t : Term} {ks : List Term} (h : t.VarsIn p) (hk : t.childKeys? = some ks) :
    ∀ k ∈ ks, k.VarsIn p :=
  pervasive_varsIn.childKeys? h hk

theorem VarsIn.setPath {value t u : Term} {path : List String} (hvalue : value.VarsIn p) (h : t.VarsIn p)
    (hu : setPath value t path = .ok u) : u.VarsIn p :=
  pervasive_varsIn.setPath hvalue h hu

end Term

/-! ## Environments -/

/-- Only the variables of a kind are assigned, and only those occur in the values. -/
def Bindings.VarsIn (p : String → Prop) (b : Bindings) : Prop :=
  ∀ a ∈ b.assignments, p a.1 ∧ ∀ t, a.2 = some t → t.VarsIn p

theorem Bindings.varsIn_empty {p : String → Prop} : Bindings.VarsIn p {} := fun _ ha => by cases ha

/-- Makes an environment from another by adding assignments to it. -/
def Bindings.Adds (p : String → Prop) (extend : Bindings → Option Bindings) : Prop :=
  ∀ b b', b.VarsIn p → extend b = some b' → b'.VarsIn p ∧ b.assignments <:+ b'.assignments

namespace Bindings

variable {p : String → Prop}

theorem undo_mark {b b' : Bindings} (hb : b.assignments <:+ b'.assignments) : b'.undo b.mark = b := by
  obtain ⟨new, hnew⟩ := hb
  cases b with
  | mk assignments =>
    simp only [Bindings.undo, Bindings.mark] at hnew ⊢
    rw [← hnew, List.length_append, Nat.add_sub_cancel, List.drop_left]

theorem varsIn_iff {b : Bindings} : b.VarsIn p ↔ b.Holds (Term.VarsIn p) := by
  simp only [VarsIn, Holds, Term.varsIn_var]

theorem Extends.adds {extend : Bindings → Option Bindings} (h : Extends (Term.VarsIn p) extend) : Adds p extend := by
  intro b b' hb hext
  obtain ⟨hb', hs⟩ := h b b' (varsIn_iff.1 hb) hext
  exact ⟨varsIn_iff.2 hb', hs⟩

theorem VarsIn.lookup {b : Bindings} (h : b.VarsIn p) {x : String} {t : Term} (ht : b.lookup x = some t) :
    p x ∧ t.VarsIn p :=
  ((varsIn_iff.1 h).lookup ht).imp_left Term.varsIn_var.1

theorem VarsIn.deref {b : Bindings} (h : b.VarsIn p) {t : Term} (ht : t.VarsIn p) : (b.deref t).VarsIn p :=
  (varsIn_iff.1 h).deref ht

theorem VarsIn.plug {b : Bindings} (h : b.VarsIn p) {t : Term} (ht : t.VarsIn p) : (b.plug t).VarsIn p :=
  (varsIn_iff.1 h).plug Term.pervasive_varsIn ht

theorem adds_unify {x y : Term} (hx : x.VarsIn p) (hy : y.VarsIn p) : Adds p (unify x y) :=
  (extends_unify Term.pervasive_varsIn hx hy).adds

theorem adds_unifyAll {params args : List Term} (hp : ∀ t ∈ params, t.VarsIn p) (ha : ∀ t ∈ args, t.VarsIn p) :
    Adds p (unifyAll params args) :=
  (extends_unifyAll Term.pervasive_varsIn hp ha).adds

theorem adds_bindEntry {key : Option Term} {value : Term} {entry : Term × Term}
    (hk : ∀ t, key = some t → t.VarsIn p) (hv : value.VarsIn p) (he : entry.1.VarsIn p ∧ entry.2.VarsIn p) :
    Adds p (bindEntry key value entry) :=
  (extends_bindEntry Term.pervasive_varsIn hk hv he).adds

theorem adds_hideAll (symbols : List Term) : Adds p fun b => some (b.hideAll symbols) := (extends_hideAll symbols).adds

end Bindings

/-! ## Source text -/

mutual
/-- Of the variables outside a kind only the names of the root documents are used, and only where they are
evaluated. Patterns have only variables of the kind, and overrides only targets of a kind. -/
def Term.Proper (p : String → Prop) (o : Term → Prop) : Term → Prop
  | .var x => p x ∨ isRoot x = true
  | .array items =>
    if Term.anyNeedsEval items then Term.ProperAll p o items else ∀ t ∈ items, t.VarsIn p
  | .set members =>
    if Term.anyNeedsEval members then Term.ProperAll p o members else ∀ t ∈ members, t.VarsIn p
  | .object fields =>
    if Term.fieldsNeedEval fields then Term.ProperFields p o fields
    else ∀ f ∈ fields, f.1.VarsIn p ∧ f.2.VarsIn p
  | .ref head operands => head.Proper p o ∧ Term.ProperAll p o operands
  | .call _ arguments => Term.ProperAll p o arguments
  | .arrayCompr term body | .setCompr term body => term.Proper p o ∧ Expr.ProperBody p o body
  | .objectCompr key value body => key.Proper p o ∧ value.Proper p o ∧ Expr.ProperBody p o body
  | .null | .bool _ | .number _ | .string _ => True
def Term.ProperAll (p : String → Prop) (o : Term → Prop) : List Term → Prop
  | [] => True
  | t :: rest => t.Proper p o ∧ Term.ProperAll p o rest
def Term.ProperFields (p : String → Prop) (o : Term → Prop) : List (Term × Term) → Prop
  | [] => True
  | (k, v) :: rest => k.Proper p o ∧ v.Proper p o ∧ Term.ProperFields p o rest
def ExprKind.Proper (p : String → Prop) (o : Term → Prop) : ExprKind → Prop
  | .term t => t.Proper p o
  | .someDecl symbols =>
    Term.ProperAll p o symbols ∧
      ∀ operator arguments, symbols = [.call operator arguments] → ∀ t ∈ arguments.dropLast, t.VarsIn p
  | .every key value domain body =>
    (∀ t, key = some t → t.VarsIn p) ∧ value.VarsIn p ∧ domain.Proper p o ∧ Expr.ProperBody p o body
def Expr.ProperOverrides (p : String → Prop) (o : Term → Prop) : List (Term × Term) → Prop
  | [] => True
  | (target, replacement) :: rest => o target ∧ replacement.Proper p o ∧ Expr.ProperOverrides p o rest
def Expr.Proper (p : String → Prop) (o : Term → Prop) : Expr → Prop
  | .mk kind _ overrides _ => kind.Proper p o ∧ Expr.ProperOverrides p o overrides
def Expr.ProperBody (p : String → Prop) (o : Term → Prop) : List Expr → Prop
  | [] => True
  | e :: rest => e.Proper p o ∧ Expr.ProperBody p o rest
end

structure Clause.Proper (p : String → Prop) (o : Term → Prop) (c : Clause) : Prop where
  params : ∀ t ∈ c.head.params, t.VarsIn p
  key : ∀ t, c.head.key = some t → t.Proper p o
  value : c.value.Proper p o
  body : Expr.ProperBody p o c.body

section Trivial

variable {p : String → Prop} {o : Term → Prop}

theorem Term.varsIn_of_forall (hp : ∀ x, p x) (t : Term) : t.VarsIn p := fun x _ => hp x

mutual
/-- Where no variable and no target is ruled out, all text is proper. -/
theorem Term.proper_of_forall (hp : ∀ x, p x) (ho : ∀ t, o t) : ∀ t : Term, t.Proper p o
  | .var x => .inl (hp x)
  | .array items => by
    rw [Term.Proper]
    split
    · exact Term.properAll_of_forall hp ho items
    · exact fun t _ => t.varsIn_of_forall hp
  | .set members => by
    rw [Term.Proper]
    split
    · exact Term.properAll_of_forall hp ho members
    · exact fun t _ => t.varsIn_of_forall hp
  | .object fields => by
    rw [Term.Proper]
    split
    · exact Term.properFields_of_forall hp ho fields
    · exact fun f _ => ⟨f.1.varsIn_of_forall hp, f.2.varsIn_of_forall hp⟩
  | .ref head operands => ⟨Term.proper_of_forall hp ho head, Term.properAll_of_forall hp ho operands⟩
  | .call _ arguments => Term.properAll_of_forall hp ho arguments
  | .arrayCompr term body => ⟨Term.proper_of_forall hp ho term, Expr.properBody_of_forall hp ho body⟩
  | .setCompr term body => ⟨Term.proper_of_forall hp ho term, Expr.properBody_of_forall hp ho body⟩
  | .objectCompr key value body =>
    ⟨Term.proper_of_forall hp ho key, Term.proper_of_forall hp ho value, Expr.properBody_of_forall hp ho body⟩
  | .null | .bool _ | .number _ | .string _ => trivial
theorem Term.properAll_of_forall (hp : ∀ x, p x) (ho : ∀ t, o t) : ∀ ts : List Term, Term.ProperAll p o ts
  | [] => trivial
  | t :: rest => ⟨Term.proper_of_forall hp ho t, Term.properAll_of_forall hp ho rest⟩
theorem Term.properFields_of_forall (hp : ∀ x, p x) (ho : ∀ t, o t) :
    ∀ fs : List (Term × Term), Term.ProperFields p o fs
  | [] => trivial
  | (k, v) :: rest =>
    ⟨Term.proper_of_forall hp ho k, Term.proper_of_forall hp ho v, Term.properFields_of_forall hp ho rest⟩
theorem ExprKind.proper_of_forall (hp : ∀ x, p x) (ho : ∀ t, o t) : ∀ kind : ExprKind, kind.Proper p o
  | .term t => Term.proper_of_forall hp ho t
  | .someDecl symbols => ⟨Term.properAll_of_forall hp ho symbols, fun _ _ _ t _ => t.varsIn_of_forall hp⟩
  | .every _ value domain body =>
    ⟨fun t _ => t.varsIn_of_forall hp, value.varsIn_of_forall hp, Term.proper_of_forall hp ho domain,
      Expr.properBody_of_forall hp ho body⟩
theorem Expr.properOverrides_of_forall (hp : ∀ x, p x) (ho : ∀ t, o t) :
    ∀ overrides : List (Term × Term), Expr.ProperOverrides p o overrides
  | [] => trivial
  | (target, replacement) :: rest =>
    ⟨ho target, Term.proper_of_forall hp ho replacement, Expr.properOverrides_of_forall hp ho rest⟩
theorem Expr.proper_of_forall (hp : ∀ x, p x) (ho : ∀ t, o t) : ∀ e : Expr, e.Proper p o
  | .mk kind _ overrides _ => ⟨ExprKind.proper_of_forall hp ho kind, Expr.properOverrides_of_forall hp ho overrides⟩
theorem Expr.properBody_of_forall (hp : ∀ x, p x) (ho : ∀ t, o t) : ∀ body : Body, Expr.ProperBody p o body
  | [] => trivial
  | e :: rest => ⟨Expr.proper_of_forall hp ho e, Expr.properBody_of_forall hp ho rest⟩
end

theorem Clause.proper_of_forall (hp : ∀ x, p x) (ho : ∀ t, o t) (c : Clause) : c.Proper p o :=
  ⟨fun t _ => t.varsIn_of_forall hp, fun t _ => t.proper_of_forall hp ho, c.value.proper_of_forall hp ho,
    Expr.properBody_of_forall hp ho c.body⟩

end Trivial

structure RuleSet.Proper (p : String → Prop) (o : Term → Prop) (rs : RuleSet) : Prop where
  rules : ∀ r ∈ rs.rules, ∀ c ∈ r.clauses, c.Proper p o
  default : ∀ r, rs.default = some r → ∀ c ∈ r.clauses, c.Proper p o

end PolicyEngine
