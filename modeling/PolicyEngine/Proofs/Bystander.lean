import PolicyEngine.Proofs.Alike
import PolicyEngine.Proofs.Beside
import PolicyEngine.Proofs.Compiled
import PolicyEngine.Proofs.Grounded

/-!
Bystanders. A variable that occurs neither in what is evaluated nor in the values this leads to has no influence on the
evaluation: whether it is bound or not, the same steps are taken and the same values are found. Computations and
searches that ignore a bystander are put together to ones that do, and the primitive steps ignore all of them.
-/
namespace PolicyEngine

/-- A variable that one of two evaluations has bound to a value, beside the variables that evaluation has to do with.
Built-ins answer in both of them by a fixed function. -/
structure Bystander where
  env : Env
  answers : String → List Term → Option Term
  name : String
  value : Term
  others : String → Prop

namespace Bystander

variable (B : Bystander) {α β : Type}

/-- States with no other variables in their overrides, in which built-ins have answered by the function. -/
structure Ready (s : State) : Prop where
  scope : s.scope.VarsIn B.others fun _ => True
  calm : s.Calm B.env
  answered : BuiltinAnswer.By B.answers s.answers

/-- A computation ends alike where the bystander is bound: in the same state but for the environment, which is that at
the start on both sides. -/
structure Returns (s : State) (b' : Bindings) (p : β → Prop) (r r' : Except EvalError β × State) : Prop where
  result : r'.1 = r.1
  state : r'.2 = { r.2 with bindings := b' }
  bindings : r.2.bindings = s.bindings
  gives : ∀ v, r.1 = .ok v → p v ∧ B.Ready r.2

/-- The same for a search, with values accumulated that belong together. -/
structure Ends (s : State) (b' : Bindings) (R : α → α → Prop) (r r' : Step α) : Prop where
  outcome : r'.outcome = r.outcome
  found : R r.found r'.found
  state : r'.state = { r.state with bindings := b' }
  bindings : r.state.bindings = s.bindings
  ready : ∀ flow, r.outcome = .ok flow → B.Ready r.state

end Bystander

/-- A computation is the same whether a bystander is bound or not. -/
def Eval.Ignores (B : Bystander) (p : β → Prop) (m : Eval β) : Prop :=
  ∀ s b', B.Ready s → Bindings.Beside B.others B.name B.value s.bindings b' →
    B.Returns s b' p (m.run s) (m.run { s with bindings := b' })

/-- A search is the same whether a bystander is bound or not. -/
def Search.Ignores (B : Bystander) (R : α → α → Prop) (search : Search α) : Prop :=
  ∀ found found' s b', R found found' → B.Ready s → Bindings.Beside B.others B.name B.value s.bindings b' →
    B.Ends s b' R (search found s) (search found' { s with bindings := b' })

variable {B : Bystander}

namespace Bystander.Ready

variable {s : State}

theorem setBindings (h : B.Ready s) (b : Bindings) : B.Ready { s with bindings := b } :=
  ⟨h.scope, ⟨h.calm.1, h.calm.2⟩, h.answered⟩

theorem setScope (h : B.Ready s) {σ : Scope} (hσ : σ.VarsIn B.others fun _ => True) :
    B.Ready { s with scope := σ } :=
  ⟨hσ, ⟨h.calm.1, h.calm.2⟩, h.answered⟩

theorem quiet {s' : State} (h : B.Ready s) (hs : s.Quiet s') : B.Ready s' := by
  refine ⟨?_, h.calm.quiet hs, hs.answers.symm ▸ h.answered⟩
  rw [hs.eq]
  exact h.scope

end Bystander.Ready

/-! ## Computations -/

namespace Eval.Ignores

variable {β γ : Type} {p : β → Prop} {q : γ → Prop} {m : Eval β}

theorem mono {p' : β → Prop} (hm : m.Ignores B p) (hp : ∀ v, p v → p' v) : m.Ignores B p' := fun s b' hs hb =>
  { hm s b' hs hb with gives := fun v hv => ((hm s b' hs hb).gives v hv).imp_left (hp v) }

theorem ofExcept {r : Except EvalError β} (hr : ∀ v, r = .ok v → p v) : (Eval.ofExcept r).Ignores B p :=
  fun _ _ hs _ => ⟨rfl, rfl, rfl, fun v hv => ⟨hr v hv, hs⟩⟩

theorem pure {v : β} (hv : p v) : (Pure.pure v : Eval β).Ignores B p :=
  fun _ _ hs _ => ⟨rfl, rfl, rfl, by rintro _ ⟨⟩; exact ⟨hv, hs⟩⟩

theorem throw (e : EvalError) : (MonadExcept.throw e : Eval β).Ignores B p :=
  fun _ _ _ _ => ⟨rfl, rfl, rfl, by rintro _ ⟨⟩⟩

theorem bind {f : β → Eval γ} (hm : m.Ignores B p) (hf : ∀ v, p v → (f v).Ignores B q) :
    (m >>= f).Ignores B q := by
  intro s b' hs hb
  obtain ⟨hresult, hstate, hbindings, hgives⟩ := hm s b' hs hb
  rw [Eval.run_bind, Eval.run_bind]
  generalize m.run { s with bindings := b' } = r' at hresult hstate ⊢
  obtain ⟨result', s₁'⟩ := r'
  generalize m.run s = r at hresult hstate hbindings hgives ⊢
  obtain ⟨result, s₁⟩ := r
  dsimp only at hresult hstate hbindings hgives
  subst hresult hstate
  cases result' with
  | error e => exact ⟨rfl, rfl, hbindings, by rintro _ ⟨⟩⟩
  | ok v =>
    obtain ⟨hv, hready⟩ := hgives v rfl
    have hnext := hf v hv s₁ b' hready (hbindings ▸ hb)
    exact { hnext with bindings := hnext.bindings.trans hbindings }

/-- A computation that looks at the state, but in the same way in both environments. -/
theorem get {f : State → Eval β}
    (hsame : ∀ s b', Bindings.Beside B.others B.name B.value s.bindings b' → f { s with bindings := b' } = f s)
    (hf : ∀ s, B.Ready s → (f s).Ignores B p) : (MonadState.get >>= f : Eval β).Ignores B p := by
  intro s b' hs hb
  rw [Eval.run_bind, Eval.run_bind, Eval.run_get, Eval.run_get]
  dsimp only
  rw [hsame s b' hb]
  exact hf s hs s b' hs hb

/-- A computation that does not look at the environment at all. -/
theorem of_blind
    (hrun : ∀ s b', m.run { s with bindings := b' } = ((m.run s).1, { (m.run s).2 with bindings := b' }))
    (hgives : ∀ s, B.Ready s → ∀ v, (m.run s).1 = .ok v → p v ∧ B.Ready (m.run s).2) : m.Ignores B p := by
  intro s b' hs _
  rw [hrun s b']
  exact ⟨rfl, rfl, congrArg (fun r => r.2.bindings) (hrun s s.bindings), hgives s hs⟩

theorem extending {extend : Bindings → Option Bindings} {v : β}
    (hadds : Bindings.Adds (fun _ => True) extend)
    (habreast : Bindings.Abreast (Bindings.Beside B.others B.name B.value) extend)
    (hv : p v) (hm : m.Ignores B p) : (Eval.extending extend v m).Ignores B p := by
  intro s b' hs hb
  rw [Eval.run_extending, Eval.run_extending]
  dsimp only
  rcases habreast.cases hb with ⟨hnone, hnone'⟩ | ⟨c, c', hsome, hsome', hc⟩
  · rw [hnone, hnone']
    exact ⟨rfl, rfl, rfl, by rintro _ ⟨⟩; exact ⟨hv, hs⟩⟩
  · rw [hsome, hsome']
    obtain ⟨hresult, hstate, hbindings, hgives⟩ := hm { s with bindings := c } c' (hs.setBindings c) hc
    dsimp only at hresult hstate hbindings ⊢
    refine ⟨hresult, ?_, ?_, fun v hv => ?_⟩
    · rw [hstate, hadds.undo_mark hsome']
    · rw [hbindings, hadds.undo_mark hsome]
    · exact (hgives v hv).imp_right fun h => h.setBindings _

theorem forAll {test : β → Eval Bool} {bs : List β} (ht : ∀ b ∈ bs, (test b).Ignores B fun _ => True) :
    (Eval.forAll test bs).Ignores B fun _ => True := by
  induction bs with
  | nil => exact .pure trivial
  | cons b rest ih =>
    rw [List.forall_mem_cons] at ht
    refine ht.1.bind fun holds _ => ?_
    cases holds with
    | true => exact ih ht.2
    | false => exact .pure trivial

end Eval.Ignores

/-! ## Searches -/

namespace Search.Ignores

variable {α β : Type} {R : α → α → Prop} {p : β → Prop}

theorem exhausted : (Search.exhausted : Search α).Ignores B R :=
  fun _ _ _ _ hR hs _ => ⟨rfl, hR, rfl, rfl, fun _ _ => hs⟩

theorem raise (e : EvalError) : (Search.raise e : Search α).Ignores B R :=
  fun _ _ _ _ hR _ _ => ⟨rfl, hR, rfl, rfl, by rintro _ ⟨⟩⟩

theorem collect {f : α → α} (hf : ∀ a a', R a a' → R (f a) (f a')) : (Search.collect f).Ignores B R :=
  fun _ _ _ _ hR hs _ => ⟨rfl, hf _ _ hR, rfl, rfl, fun _ _ => hs⟩

theorem accept {f : α → α} (hf : ∀ a a', R a a' → R (f a) (f a')) : (Search.accept f).Ignores B R :=
  fun _ _ _ _ hR hs _ => ⟨rfl, hf _ _ hR, rfl, rfl, fun _ _ => hs⟩

theorem after {m : Eval β} {k : β → Search α} (hm : m.Ignores B p) (hk : ∀ v, p v → (k v).Ignores B R) :
    (Search.after m k).Ignores B R := by
  intro found found' s b' hR hs hb
  obtain ⟨hresult, hstate, hbindings, hgives⟩ := hm s b' hs hb
  rw [Search.after, Search.after]
  generalize m.run { s with bindings := b' } = r' at hresult hstate ⊢
  obtain ⟨result', s₁'⟩ := r'
  generalize m.run s = r at hresult hstate hbindings hgives ⊢
  obtain ⟨result, s₁⟩ := r
  dsimp only at hresult hstate hbindings hgives
  subst hresult hstate
  cases result' with
  | error e => exact ⟨rfl, hR, rfl, hbindings, by rintro _ ⟨⟩⟩
  | ok v =>
    obtain ⟨hv, hready⟩ := hgives v rfl
    have hnext := hk v hv found found' s₁ b' hR hready (hbindings ▸ hb)
    exact { hnext with bindings := hnext.bindings.trans hbindings }

theorem afterSome {m : Eval (Option β)} {k : β → Search α} (hm : m.Ignores B (IfSome p))
    (hk : ∀ v, p v → (k v).Ignores B R) : (Search.afterSome m k).Ignores B R := by
  refine after hm fun found hfound => ?_
  cases found with
  | none => exact exhausted
  | some v => exact hk v (hfound v rfl)

/-- A search that looks at the environment, but in the same way at both. -/
theorem withBindings {k : Bindings → Search α}
    (hsame : ∀ b b', Bindings.Beside B.others B.name B.value b b' → k b' = k b)
    (hk : ∀ b : Bindings, b.Closed B.others → (k b).Ignores B R) :
    (Search.withBindings k).Ignores B R := by
  intro found found' s b' hR hs hb
  rw [Search.withBindings, Search.withBindings]
  dsimp only
  rw [hsame _ _ hb]
  exact hk _ hb.closed found found' s b' hR hs hb

theorem extending {extend : Bindings → Option Bindings} {k : Search α}
    (hadds : Bindings.Adds (fun _ => True) extend)
    (habreast : Bindings.Abreast (Bindings.Beside B.others B.name B.value) extend)
    (hk : k.Ignores B R) : (Search.extending extend k).Ignores B R := by
  intro found found' s b' hR hs hb
  rw [Search.extending, Search.extending]
  dsimp only
  rcases habreast.cases hb with ⟨hnone, hnone'⟩ | ⟨c, c', hsome, hsome', hc⟩
  · rw [hnone, hnone']
    exact ⟨rfl, hR, rfl, rfl, fun _ _ => hs⟩
  · rw [hsome, hsome']
    obtain ⟨houtcome, hfound, hstate, hbindings, hready⟩ :=
      hk found found' { s with bindings := c } c' hR (hs.setBindings c) hc
    dsimp only at houtcome hstate hbindings ⊢
    refine ⟨houtcome, hfound, ?_, ?_, fun flow hflow => (hready flow hflow).setBindings _⟩
    · rw [hstate, hadds.undo_mark hsome']
    · rw [hbindings, hadds.undo_mark hsome]

theorem unifying {x y : Term} {k : Search α} (hx : x.VarsIn B.others) (hy : y.VarsIn B.others) (hk : k.Ignores B R) :
    (Search.unifying x y k).Ignores B R :=
  hk.extending (Bindings.adds_unify (x.varsIn_of_forall fun _ => trivial) (y.varsIn_of_forall fun _ => trivial))
    (Bindings.abreast_unify hx hy)

theorem each {bs : List β} {k : β → Search α} (hk : ∀ b ∈ bs, (k b).Ignores B R) :
    (Search.each bs k).Ignores B R := by
  induction bs with
  | nil => exact exhausted
  | cons b rest ih =>
    rw [List.forall_mem_cons] at hk
    intro found found' s b' hR hs hb
    obtain ⟨houtcome, hfound, hstate, hbindings, hready⟩ := hk.1 found found' s b' hR hs hb
    simp only [Search.each]
    generalize k b found' { s with bindings := b' } = r' at houtcome hfound hstate ⊢
    obtain ⟨outcome', found₁', s₁'⟩ := r'
    generalize k b found s = r at houtcome hfound hstate hbindings hready ⊢
    obtain ⟨outcome, found₁, s₁⟩ := r
    dsimp only at houtcome hfound hstate hbindings hready
    subst houtcome hstate
    cases outcome' with
    | error e => exact ⟨rfl, hfound, rfl, hbindings, by rintro _ ⟨⟩⟩
    | ok flow =>
      cases flow with
      | stop => exact ⟨rfl, hfound, rfl, hbindings, hready⟩
      | more =>
        have hnext := ih hk.2 found₁ found₁' s₁ b' hfound (hready .more rfl) (hbindings ▸ hb)
        exact { hnext with bindings := hnext.bindings.trans hbindings }

theorem gather {search : Search β} {start : β} (hs : search.Ignores B (Both p)) (hstart : p start) :
    (Search.gather search start).Ignores B p := by
  intro s b' hready hb
  obtain ⟨houtcome, ⟨hfound, hp⟩, hstate, hbindings, hend⟩ := hs start start s b' ⟨rfl, hstart⟩ hready hb
  refine ⟨?_, hstate, hbindings, fun v hv => ?_⟩
  · change Except.map _ _ = Except.map _ _
    rw [houtcome, hfound]
  · obtain ⟨flow, hflow, rfl⟩ := Except.map_eq_ok (show (search start s).outcome.map _ = .ok v from hv)
    exact ⟨hp, hend flow hflow⟩

theorem noting {k : Search α} (hk : k.Ignores B R) :
    (Search.noting k).Ignores B fun a a' => R a.1 a'.1 ∧ a'.2 = a.2 := by
  intro found found' s b' hR hs hb
  obtain ⟨houtcome, hfound, hstate, hbindings, hready⟩ := hk found.1 found'.1 s b' hR.1 hs hb
  exact ⟨houtcome, ⟨hfound, rfl⟩, hstate, hbindings, hready⟩

theorem orElse {search : Search (α × Bool)} {otherwise : Eval Unit}
    (hsearch : search.Ignores B fun a a' => R a.1 a'.1 ∧ a'.2 = a.2) (ho : otherwise.Ignores B fun _ => True) :
    (Search.orElse search otherwise).Ignores B R := by
  intro found found' s b' hR hs hb
  obtain ⟨houtcome, ⟨hfound, hflag⟩, hstate, hbindings, hready⟩ :=
    hsearch (found, false) (found', false) s b' ⟨hR, rfl⟩ hs hb
  rw [Search.orElse, Search.orElse]
  generalize search (found', false) { s with bindings := b' } = r' at houtcome hfound hflag hstate ⊢
  obtain ⟨outcome', ⟨found₁', flag'⟩, s₁'⟩ := r'
  generalize search (found, false) s = r at houtcome hfound hflag hstate hbindings hready ⊢
  obtain ⟨outcome, ⟨found₁, flag⟩, s₁⟩ := r
  dsimp only at houtcome hfound hflag hstate hbindings hready
  subst houtcome hflag hstate
  cases outcome' with
  | error e => exact ⟨rfl, hfound, rfl, hbindings, by rintro _ ⟨⟩⟩
  | ok flow =>
    cases flag' with
    | true => exact ⟨rfl, hfound, rfl, hbindings, hready⟩
    | false =>
      obtain ⟨hresult, hstate, hsame, hgives⟩ := ho s₁ b' (hready flow rfl) (hbindings ▸ hb)
      dsimp only
      generalize otherwise.run { s₁ with bindings := b' } = r' at hresult hstate ⊢
      obtain ⟨result', s₂'⟩ := r'
      generalize otherwise.run s₁ = r at hresult hstate hsame hgives ⊢
      obtain ⟨result, s₂⟩ := r
      dsimp only at hresult hstate hsame hgives
      subst hresult hstate
      cases result' with
      | error e => exact ⟨rfl, hfound, rfl, hsame.trans hbindings, by rintro _ ⟨⟩⟩
      | ok _ => exact ⟨rfl, hfound, rfl, hsame.trans hbindings, fun _ _ => (hgives _ rfl).2⟩

theorem inScope {σ : Scope} {search : Search α → Search α} {k : Search α} (hσ : σ.VarsIn B.others fun _ => True)
    (hsearch : ∀ k : Search α, k.Ignores B R → (search k).Ignores B R) (hk : k.Ignores B R) :
    (Search.inScope σ search k).Ignores B R := by
  intro found found' s b' hR hs hb
  -- the continuation runs in the enclosing scope
  have henclosed : (Coupling.enclosed s.scope k).Ignores B R := by
    intro found found' s₁ b₁ hR hs₁ hb₁
    obtain ⟨houtcome, hfound, hstate, hbindings, hready⟩ :=
      hk found found' { s₁ with scope := s.scope } b₁ hR (hs₁.setScope hs.scope) hb₁
    refine ⟨houtcome, hfound, ?_, hbindings, fun flow hflow => (hready flow hflow).setScope hs₁.scope⟩
    exact congrArg (fun t : State => { t with scope := s₁.scope }) hstate
  have hopened : B.Ready (s.openScope σ) :=
    ⟨⟨hσ.input, hσ.data, hσ.functions, hσ.values⟩, ⟨hs.calm.1, hs.calm.2⟩, hs.answered⟩
  obtain ⟨houtcome, hfound, hstate, hbindings, hready⟩ :=
    hsearch _ henclosed found found' (s.openScope σ) b' hR hopened hb
  rw [Coupling.inScope_eq, Coupling.inScope_eq]
  refine ⟨houtcome, hfound, ?_, hbindings, fun flow hflow => ?_⟩
  · exact congrArg (fun t : State => t.closeScope (s.lastScope + 1) s.scope) hstate
  · have hend := hready flow hflow
    exact ⟨hs.scope, ⟨hend.calm.1, hend.calm.2⟩, hend.answered⟩

theorem ground {k : Term → Search α} {t : Term} (ht : t.VarsIn B.others)
    (hk : ∀ v : Term, v.isGround = true → (k v).Ignores B R) : (Search.ground k t).Ignores B R := by
  refine withBindings (fun b b' hb => ?_) fun b hb => ?_
  · rw [hb.plug ht]
  · dsimp only
    split
    · next hground => exact hk _ hground
    · exact exhausted

/-- A search that goes on with the values of variables in place. -/
theorem plugged {k : Term → Search α} {t : Term} (ht : t.VarsIn B.others)
    (hk : ∀ v : Term, v.VarsIn B.others → (k v).Ignores B R) :
    (Search.withBindings fun b => k (b.plug t)).Ignores B R :=
  withBindings (fun b b' hb => by rw [hb.plug ht]) fun _ hb => hk _ (hb.plug ht)

/-- The first ground value that is found. -/
theorem first {search : (Term → Search (Option Term)) → Search (Option Term)}
    (hs : ∀ k : Term → Search (Option Term), (∀ v : Term, v.VarsIn B.others → (k v).Ignores B (Both GroundIfSome)) →
      (search k).Ignores B (Both GroundIfSome)) : (Search.first search).Ignores B GroundIfSome := by
  refine gather (hs _ fun v hv => ground hv fun t ht => accept ?_) ifSome_none
  exact fun _ _ _ => ⟨rfl, ifSome_some ht⟩

theorem addUnique {conflict : Term → Term → Term → EvalError} {note : Eval Unit} {key value : Term}
    (hkey : key.VarsIn B.others) (hvalue : value.VarsIn B.others) (hnote : note.Ignores B fun _ => True) :
    (Search.addUnique conflict note key value).Ignores B
      (Both fun fields => ∀ f ∈ fields, f.1.isGround = true ∧ f.2.isGround = true) := by
  refine ground hvalue fun value hvalue => ground hkey fun key hkey => ?_
  rintro _ fields s b' ⟨rfl, hfields⟩ hs hb
  dsimp only
  generalize (Term.findField? key fields).filter (fun old => !(old == value)) = clash
  cases clash with
  | some old => exact raise _ fields fields s b' ⟨rfl, hfields⟩ hs hb
  | none =>
    refine (after hnote fun _ _ => collect ?_) fields fields s b' ⟨rfl, hfields⟩ hs hb
    rintro fs _ ⟨rfl, hfs⟩
    exact ⟨rfl, Term.forall_insertField (V := fun t => t.isGround = true) hfs hkey hvalue⟩

end Search.Ignores

/-! ## Primitive steps -/

namespace Env

/-- The store and the built-ins bring no variables into values but those of a kind. -/
structure Confined (env : Env) (f : String → List Term → Option Term) (p : String → Prop) : Prop where
  roots : ∀ y, isRoot y = true → p y
  root : env.root.VarsIn p
  fixed : env.Fixed f
  builtins : ∀ b, env.registry.Callable b → ∀ context args host v, args.all Term.isGround = true →
    (b.invoke context args host).1 = .ok (some v) → v.VarsIn p
  answers : ∀ name args, IfSome (Term.VarsIn p) (f name args)

namespace Confined

variable {env : Env} {f : String → List Term → Option Term} {p : String → Prop}

theorem kind_of_proper (h : env.Confined f p) {o : Term → Prop} {y : String} (hy : (Term.var y).Proper p o) : p y :=
  hy.elim id (h.roots y)

theorem varsIn_builtinResult (h : env.Confined f p) {b : Builtin} (hb : env.registry.Callable b) {args : List Term}
    (hargs : args.all Term.isGround = true) {context : BuiltinContext} {host : Host} {answer : Option Term}
    (hanswer : env.builtinResult b args (b.invoke context args host).1 = .ok answer) :
    IfSome (Term.VarsIn p) answer := by
  -- the rules of the policy do not matter to a built-in
  have hspeaks : ({ env with policy := {} } : Env).Speaks ⟨p, p, fun _ => True⟩ :=
    ⟨fun _ => id, h.root, h.builtins, fun _ => nofun⟩
  exact hspeaks.builtinResult hb hargs hanswer

theorem varsIn_callBuiltin (h : env.Confined f p) {b : Builtin} (hb : env.registry.Callable b) {args : List Term}
    {s : State} (hs : BuiltinAnswer.By f s.answers) {answer : Option Term}
    (hanswer : ((env.callBuiltin b args).run s).1 = .ok answer) : IfSome (Term.VarsIn p) answer := by
  cases href : refusal? b args with
  | some r =>
    rw [env.run_callBuiltin, href] at hanswer
    rw [eq_none_of_refusal (href.trans (congrArg some hanswer))]
    exact ifSome_none
  | none =>
    cases hdet : b.deterministic with
    | true =>
      rw [env.run_callBuiltin, href, env.run_runBuiltin] at hanswer
      simp only [hdet, if_true] at hanswer
      exact h.varsIn_builtinResult hb (ground_of_refusal href) hanswer
    | false =>
      rcases hrun : (env.callBuiltin b args).run s with ⟨r, s'⟩
      rw [hrun] at hanswer
      subst hanswer
      rw [(h.fixed.callBuiltin hb hdet href hs hrun).1]
      exact h.answers b.name args

end Confined
end Env

namespace Bystander

/-- The rules of the policy ignore the bystander. -/
structure Ignored (B : Bystander) (rules : RuleSemantics) : Prop extends B.env.Confined B.answers B.others where
  document : ∀ rs ∈ B.env.policy.ruleSets, (rules.document rs).Ignores B (IfSome (Term.VarsIn B.others))
  function : ∀ rs ∈ B.env.policy.ruleSets, ∀ args : List Term,
    (rules.function rs args).Ignores B (IfSome (Term.VarsIn B.others))

variable (B)

theorem ignores_checkpoint : B.env.checkpoint.Ignores B fun _ => True :=
  .of_blind B.env.run_checkpoint_setBindings fun s hs _ _ => ⟨trivial, hs.quiet (B.env.quiet_checkpoint s)⟩

theorem ignores_emit (op : TraceOp) (depth : Nat) (text : Unit → String) :
    (B.env.emit op depth text).Ignores B fun _ => True := by
  refine .of_blind (fun s b' => ?_) fun s hs v _ => ⟨trivial, hs.quiet (B.env.quiet_emit op depth text s)⟩
  rw [B.env.run_emit, B.env.run_emit]
  split <;> rfl

end Bystander

namespace Env.Confined

theorem ignores_read (h : B.env.Confined B.answers B.others) (path : StorePath) :
    (B.env.read path).Ignores B (IfSome (Term.VarsIn B.others)) := by
  refine .of_blind (fun s b' => ?_) fun s hs v hv => ⟨fun t ht => ?_, hs.quiet (B.env.quiet_read path s)⟩
  · rw [B.env.run_read, B.env.run_read]
  · rw [B.env.run_read] at hv
    dsimp only at hv
    split at hv <;> cases hv
    exact h.root.at? ht

theorem ignores_listKeys (h : B.env.Confined B.answers B.others) (path : StorePath) :
    (B.env.listKeys path).Ignores B (IfSome fun ts => ∀ t ∈ ts, t.VarsIn B.others) := by
  refine .of_blind (fun s b' => ?_) fun s hs v hv => ⟨fun ts hts => ?_, hs.quiet (B.env.quiet_listKeys path s)⟩
  · rw [B.env.run_listKeys, B.env.run_listKeys]
  · rw [B.env.run_listKeys] at hv
    dsimp only at hv
    split at hv <;> cases hv
    obtain ⟨doc, hdoc, hkeys⟩ := Option.bind_eq_some_iff.1 hts
    exact (h.root.at? hdoc).childKeys? hkeys

theorem ignores_callBuiltin (h : B.env.Confined B.answers B.others) {b : Builtin} (hb : B.env.registry.Callable b)
    (args : List Term) : (B.env.callBuiltin b args).Ignores B (IfSome (Term.VarsIn B.others)) := by
  refine .of_blind (fun s b' => ?_) fun s hs answer hanswer => ⟨h.varsIn_callBuiltin hb hs.answered hanswer, ?_⟩
  · simp only [B.env.run_callBuiltin, B.env.run_runBuiltin, State.answered?]
    split
    · rfl
    · split
      · rfl
      · split
        · rfl
        · cases B.env.builtinResult b args (b.invoke _ args s.host).1 <;> rfl
  · have hby := h.fixed.by_callBuiltin hb args hs.answered
    obtain ⟨host, answers, hstate⟩ := B.env.state_callBuiltin b args s
    rw [hstate] at hby ⊢
    exact ⟨hs.scope, ⟨hs.calm.1, hs.calm.2⟩, hby⟩

end Env.Confined
end PolicyEngine
