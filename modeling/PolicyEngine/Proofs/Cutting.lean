import PolicyEngine.Proofs.Plans
import PolicyEngine.Proofs.Queries

/-!
Searches cut short. A caller may stop a search, or have it cancelled, while the same search goes on for another caller.
Up to that point the two are in step. A stop travels back through every frame and nothing is evaluated on the way; after
a cancellation the search goes back as well, and ends at the first check point it comes to, if not before.
-/
namespace PolicyEngine

/-- What is compared of a search and one that is cut short. -/
structure Cut (α α' : Type) where
  /-- The values found as long as the two are in step. -/
  live : α → α' → Prop
  /-- The values found once the second search is cancelled; on the way back the two are in step. -/
  winding : α → α' → Prop
  /-- The values found once the second search is over, while the first one goes on. -/
  ended : α → α' → Prop
  /-- How the second search ends then. -/
  ending : Except EvalError Flow

namespace Cut

variable {α α' β κ : Type}

/-- The end of the second search fits that of the first. -/
inductive Meets (C : Cut α α') : Step α → Step α' → Prop where
  | live {outcome : Except EvalError Flow} {a : α} {a' : α'} {s : State} :
      C.live a a' → Meets C ⟨outcome, a, s⟩ ⟨outcome, a', s⟩
  | winding {flow : Flow} {a : α} {a' : α'} {s : State} :
      C.winding a a' → Meets C ⟨.ok flow, a, s⟩ ⟨.ok flow, a', { s with cancelled := true }⟩
  | ended {r : Step α} {r' : Step α'} : r'.outcome = C.ending → C.ended r.found r'.found → Meets C r r'

/-- Where the searches are in step their ends fit, and where the second one is over the first one may go on. -/
structure Follows (C : Cut α α') (k : Search α) (k' : Search α') : Prop where
  meets : ∀ a a' s, C.live a a' → C.Meets (k a s) (k' a' s)
  stays : ∀ a a' s, C.ended a a' → C.ended (k a s).found a'

/-- A search that is cut short is over, and one that winds back is ended at the next check point. -/
structure Lawful (C : Cut α α') (env : Env) : Prop where
  ending : C.ending ≠ .ok .more
  winding : ∀ a a', C.winding a a' →
    env.options.cancellable = true ∧ C.ending = .error .cancelled ∧ C.ended a a'

variable {C : Cut α α'} {env : Env}

/-- What is done to the state on the way back is done on both sides, whether or not the second is cancelled. -/
theorem Meets.onState {r : Step α} {r' : Step α'} (h : C.Meets r r') (g : State → State)
    (hg : ∀ s, g { s with cancelled := true } = { g s with cancelled := true }) :
    C.Meets { r with state := g r.state } { r' with state := g r'.state } := by
  cases h with
  | live h => exact .live h
  | winding h =>
    simp only [hg]
    exact .winding h
  | ended he h => exact .ended he h

namespace Follows

theorem exhausted : C.Follows Search.exhausted Search.exhausted := ⟨fun _ _ _ h => .live h, fun _ _ _ h => h⟩

theorem after (m : Eval β) {k : β → Search α} {k' : β → Search α'} (hk : ∀ b, C.Follows (k b) (k' b)) :
    C.Follows (Search.after m k) (Search.after m k') := by
  constructor
  · intro a a' s h
    simp only [Search.after]
    rcases m.run s with ⟨e | b, s₁⟩
    · exact .live h
    · exact (hk b).meets a a' s₁ h
  · intro a a' s h
    simp only [Search.after]
    rcases m.run s with ⟨e | b, s₁⟩
    · exact h
    · exact (hk b).stays a a' s₁ h

theorem extending (f : Bindings → Option Bindings) {k : Search α} {k' : Search α'} (hk : C.Follows k k') :
    C.Follows (Search.extending f k) (Search.extending f k') := by
  constructor
  · intro a a' s h
    simp only [Search.extending]
    cases f s.bindings with
    | none => exact .live h
    | some b =>
      exact (hk.meets a a' _ h).onState
        (fun r => { r with bindings := r.bindings.undo s.bindings.mark }) fun _ => rfl
  · intro a a' s h
    simp only [Search.extending]
    cases f s.bindings with
    | none => exact h
    | some b => exact hk.stays a a' _ h

/-- Alternatives, each after a check point: there a search that was cancelled is over. -/
theorem each (hC : C.Lawful env) (bs : List β) {k : β → Search α} {k' : β → Search α'}
    (hk : ∀ b, C.Follows (k b) (k' b)) :
    C.Follows (Search.each bs fun b => Search.after env.checkpoint fun _ => k b)
      (Search.each bs fun b => Search.after env.checkpoint fun _ => k' b) := by
  induction bs with
  | nil => exact exhausted
  | cons b rest ih =>
    have hb := after env.checkpoint fun _ : Unit => hk b
    constructor
    · intro a a' s h
      have hend := hb.meets a a' s h
      simp only [Search.each]
      generalize Search.after env.checkpoint (fun _ => k b) a s = r at hend ⊢
      generalize Search.after env.checkpoint (fun _ => k' b) a' s = r' at hend ⊢
      cases hend with
      | @live outcome a₁ a₁' s₁ h =>
        rcases outcome with e | _ | _
        · exact .live h
        · exact ih.meets a₁ a₁' s₁ h
        · exact .live h
      | @winding flow a₁ a₁' s₁ h =>
        cases flow with
        | stop => exact .winding h
        | more =>
          cases rest with
          | nil => exact .winding h
          | cons c rest =>
            -- the second search ends at the check point before the next alternative
            obtain ⟨hcancel, hending, hended⟩ := hC.winding _ _ h
            have hcut : Search.each (c :: rest) (fun b => Search.after env.checkpoint fun _ => k' b) a₁'
                { s₁ with cancelled := true } = ⟨.error .cancelled, a₁', { s₁ with cancelled := true }⟩ := by
              simp only [Search.each, Search.after, env.run_checkpoint, hcancel, Bool.and_self, if_true]
            dsimp only
            rw [hcut]
            exact .ended hending.symm (ih.stays a₁ a₁' s₁ hended)
      | ended he h =>
        obtain ⟨outcome, a₁, s₁⟩ := r
        obtain ⟨outcome', a₁', s₁'⟩ := r'
        have hstop : outcome' ≠ .ok .more := fun hmore => hC.ending (he.symm.trans hmore)
        rcases outcome with e | _ | _ <;> rcases outcome' with e' | _ | _ <;>
          first
          | exact absurd rfl hstop
          | exact .ended he h
          | exact .ended he (ih.stays a₁ a₁' s₁ h)
    · intro a a' s h
      have hended := hb.stays a a' s h
      simp only [Search.each]
      generalize Search.after env.checkpoint (fun _ => k b) a s = r at hended ⊢
      obtain ⟨e | _ | _, a₁, s₁⟩ := r
      · exact hended
      · exact ih.stays a₁ a' s₁ hended
      · exact hended

/-- A search in a scope of its own, whose continuation belongs to the enclosing scope. -/
theorem inScope (σ : Scope) {search : Search α → Search α} {search' : Search α' → Search α'} {k : Search α}
    {k' : Search α'} (hs : ∀ {k : Search α} {k' : Search α'}, C.Follows k k' → C.Follows (search k) (search' k'))
    (hk : C.Follows k k') : C.Follows (Search.inScope σ search k) (Search.inScope σ search' k') := by
  have hinner : ∀ τ : Scope, C.Follows (Coupling.enclosed τ k) (Coupling.enclosed τ k') := by
    refine fun τ => ⟨fun a a' s h => ?_, fun a a' s h => hk.stays a a' _ h⟩
    exact (hk.meets a a' _ h).onState (fun r => { r with scope := s.scope }) fun _ => rfl
  constructor
  · intro a a' s h
    simp only [Coupling.inScope_eq]
    exact ((hs (hinner s.scope)).meets a a' _ h).onState (fun r => r.closeScope (s.lastScope + 1) s.scope) fun _ => rfl
  · intro a a' s h
    exact (hs (hinner s.scope)).stays a a' _ h

end Follows

/-- The same of searches that note whether their continuation was called; a caller that cuts a search short was. -/
def noted (C : Cut α α') : Cut (α × Bool) (α' × Bool) where
  live a a' := C.live a.1 a'.1 ∧ a'.2 = a.2
  winding a a' := C.winding a.1 a'.1 ∧ a.2 = true ∧ a'.2 = true
  ended a a' := C.ended a.1 a'.1 ∧ a'.2 = true
  ending := C.ending

theorem Lawful.noted (hC : C.Lawful env) : C.noted.Lawful env where
  ending := hC.ending
  winding _ _ h :=
    have ⟨hcancel, hending, hended⟩ := hC.winding _ _ h.1
    ⟨hcancel, hending, hended, h.2.2⟩

namespace Follows

theorem noting {k : Search α} {k' : Search α'} (hk : C.Follows k k') :
    C.noted.Follows (Search.noting k) (Search.noting k') := by
  constructor
  · intro a a' s h
    have hend := hk.meets a.1 a'.1 s h.1
    simp only [Search.noting]
    generalize k a.1 s = r at hend ⊢
    generalize k' a'.1 s = r' at hend ⊢
    cases hend with
    | live h => exact .live ⟨h, rfl⟩
    | winding h => exact .winding ⟨h, rfl, rfl⟩
    | ended he h => exact .ended he ⟨h, rfl⟩
  · intro a a' s h
    exact ⟨hk.stays a.1 a'.1 s h.1, h.2⟩

theorem found_orElse (search : Search (α × Bool)) (otherwise : Eval Unit) (a : α) (s : State) :
    (Search.orElse search otherwise a s).found = (search (a, false) s).found.1 := by
  simp only [Search.orElse]
  rcases search (a, false) s with ⟨e | flow, ⟨a₁, _ | _⟩, s₁⟩
  case ok.false =>
    dsimp only
    rcases otherwise.run s₁ with ⟨_ | _, _⟩ <;> rfl
  all_goals rfl

theorem orElse {search : Search (α × Bool)} {search' : Search (α' × Bool)} (hs : C.noted.Follows search search')
    (otherwise : Eval Unit) : C.Follows (Search.orElse search otherwise) (Search.orElse search' otherwise) := by
  constructor
  · intro a a' s h
    have hend := hs.meets (a, false) (a', false) s ⟨h, rfl⟩
    have hfound := found_orElse search otherwise a s
    simp only [Search.orElse] at hfound ⊢
    generalize search (a, false) s = r at hend hfound ⊢
    generalize search' (a', false) s = r' at hend ⊢
    cases hend with
    | @live outcome found found' s₁ h =>
      obtain ⟨a₁, flag⟩ := found
      obtain ⟨a₁', flag'⟩ := found'
      obtain ⟨h, hflag⟩ := h
      cases hflag
      rcases outcome with e | flow
      · exact .live h
      · cases flag with
        | true => exact .live h
        | false =>
          dsimp only
          rcases otherwise.run s₁ with ⟨e | _, s₂⟩ <;> exact .live h
    | @winding flow found found' s₁ h =>
      obtain ⟨a₁, flag⟩ := found
      obtain ⟨a₁', flag'⟩ := found'
      obtain ⟨h, rfl, rfl⟩ := h
      exact .winding h
    | ended he h =>
      obtain ⟨outcome', ⟨a₁', flag'⟩, s₁'⟩ := r'
      obtain ⟨h, rfl⟩ := h
      rw [← hfound] at h
      rcases outcome' with e | flow <;> exact .ended he h
  · intro a a' s h
    rw [found_orElse]
    exact (hs.stays (a, false) (a', true) s ⟨h, rfl⟩).1

end Follows

end Cut

/-- A plan that is followed by two callers, one of which cuts it short. -/
theorem Plan.follows {env : Env} {κ : Type} (p : Plan κ) {α α' : Type} {C : Cut α α'} (hC : C.Lawful env)
    {k : κ → Search α} {k' : κ → Search α'} (hk : ∀ x, C.Follows (k x) (k' x)) :
    C.Follows (p.run env k) (p.run env k') := by
  induction p generalizing α α' with
  | compute m => exact .after m hk
  | extend f => exact .extending f (hk ())
  | choose among => exact .each hC among hk
  | orElse p otherwise ih => exact .orElse (ih hC.noted fun x => (hk x).noting) otherwise
  | inScope σ p ih => exact .inScope σ (fun hk => ih hC fun _ => hk) (hk ())
  | bind p next ih ihn => exact ih hC fun x => ihn x hC hk

/-! ## Queries -/

/-- Hands the solution that the environment is to a caller. -/
def Search.handing (names : List String) (deliver : Solution → α → Reply × α) : Search α := fun found s =>
  let (reply, found) := deliver (Query.solution names s.bindings) found
  ⟨.ok reply.flow, found, { s with cancelled := s.cancelled || reply.cancel }⟩

/-- A query whose caller cuts it short beside the same query for another caller. -/
theorem Cut.Follows.evalQuery {env : Env} {α α' : Type} {C : Cut α α'} (hC : C.Lawful env) (body : Body)
    {deliver : Solution → α → Reply × α} {deliver' : Solution → α' → Reply × α'}
    (hd : ∀ names, C.Follows (Search.handing names deliver) (Search.handing names deliver')) :
    C.Follows (env.evalQuery body deliver) (env.evalQuery body deliver') := by
  obtain ⟨plan, hplan, _⟩ := Plan.ofBody (fun _ => True) env env.rules body
  have hplan : ∀ (β : Type) (k : Search β), env.evalBody env.rules body k = plan.run env fun _ => k :=
    fun β k => hplan β fun _ => k
  refine .after _ fun depth => ?_
  rw [hplan, hplan]
  exact plan.follows hC fun _ => .after _ fun _ => hd _

namespace Query

/-- Takes every solution. -/
def takeAll (solution : Solution) (found : Array Solution) : Reply × Array Solution := ({}, found.push solution)

/-- Takes solutions and asks to stop at the one with a number. -/
def takeUpTo (n : Nat) (solution : Solution) (found : Array Solution) : Reply × Array Solution :=
  ({ flow := if found.size + 1 = n then .stop else .more }, found.push solution)

/-- The two callers beside each other: the second one is over with its last solution. -/
def stopping (n : Nat) : Cut (Array Solution) (Array Solution) where
  live found found' := found' = found ∧ found.size < n
  winding _ _ := False
  ended found found' := n ≤ found.size ∧ found'.toList = found.toList.take n
  ending := .ok .stop

theorem lawful_stopping (n : Nat) (env : Env) : (stopping n).Lawful env := ⟨nofun, fun _ _ h => h.elim⟩

theorem follows_takeUpTo (n : Nat) (names : List String) :
    (stopping n).Follows (Search.handing names takeAll) (Search.handing names (takeUpTo n)) := by
  constructor
  · rintro _ found s ⟨rfl, hsize⟩
    simp only [Search.handing, takeAll, takeUpTo]
    by_cases hn : found.size + 1 = n
    · simp only [hn, if_true]
      refine .ended rfl ⟨?_, ?_⟩
      · simp only [Array.size_push, hn, Nat.le_refl]
      · rw [List.take_of_length_le]
        simp only [Array.toList_push, List.length_append, Array.length_toList, List.length_singleton, hn, Nat.le_refl]
    · simp only [hn, if_false]
      refine .live ⟨rfl, ?_⟩
      rw [Array.size_push]
      omega
  · rintro found found' s ⟨hsize, hbegins⟩
    refine ⟨Nat.le_trans hsize ?_, ?_⟩
    · simp only [Search.handing, takeAll, Array.size_push, Nat.le_add_right]
    · rw [hbegins]
      simp only [Search.handing, takeAll, Array.toList_push]
      rw [List.take_append_of_le_length (by rwa [Array.length_toList])]

end Query

/-- The evaluations of an engine, if its modules compile, are in one environment and from one state. -/
theorem Engine.run_alike (e : Engine) (txn : Option Transaction) :
    (∃ err, ∀ (β : Type) (failed : EvalError → β) body, (e.run txn failed body).1 = { result := failed err }) ∨
    ∃ env s, env.options = e.options ∧ ∀ (β : Type) (failed : EvalError → β) body, (e.run txn failed body).1 =
      { result := (body env s).1, events := (body env s).2.host.events.toList
        prints := (body env s).2.host.prints.toList, requests := (body env s).2.requests.toList } := by
  simp only [Engine.run]
  rcases hc : e.compile with ⟨err | policy, e₁⟩
  · exact .inl ⟨err, fun _ _ _ => rfl⟩
  · have hoptions : e₁.options = e.options := by
      simp only [Engine.compile] at hc
      split at hc
      · cases hc
        rfl
      · split at hc <;> cases hc
        rfl
    exact .inr ⟨_, _, hoptions, fun _ _ _ => rfl⟩

/-! ## Stopping -/

/-- A caller that stops at its `n`-th solution gets the first `n` solutions of the query and no others, in the order in
which a caller that takes all of them gets them. Once it has them the query succeeds, whatever would come after, and
without so many solutions the query ends as it does for the other caller. -/
theorem Engine.evalQueryWith_takeUpTo (e : Engine) (txn : Option Transaction) (query : Body) {n : Nat} (hn : 0 < n) :
    let all := (e.evalQueryWith txn query Query.takeAll #[]).1.result
    let some := (e.evalQueryWith txn query (Query.takeUpTo n) #[]).1.result
    some.2.toList = all.2.toList.take n ∧ (n ≤ all.2.size → some.1 = .ok ()) ∧ (all.2.size < n → some.1 = all.1) := by
  simp only [Engine.evalQueryWith]
  rcases e.run_alike txn with ⟨err, hrun⟩ | ⟨env, s, -, hrun⟩
  · simp only [hrun]
    exact ⟨List.take_nil.symm, fun h => absurd hn (Nat.not_lt.2 h), fun _ => trivial⟩
  · simp only [hrun]
    have hend := (Cut.Follows.evalQuery (Query.lawful_stopping n env) query (Query.follows_takeUpTo n)).meets #[] #[] s
      ⟨rfl, hn⟩
    generalize env.evalQuery query Query.takeAll #[] s = r at hend ⊢
    generalize env.evalQuery query (Query.takeUpTo n) #[] s = r' at hend ⊢
    cases hend with
    | live h =>
      obtain ⟨rfl, hsize⟩ := h
      exact ⟨(List.take_of_length_le hsize.le).symm, fun h => absurd hsize (Nat.not_lt.2 h), fun _ => rfl⟩
    | winding h => exact h.elim
    | ended he h =>
      obtain ⟨hsize, hbegins⟩ := h
      rw [he]
      exact ⟨hbegins, fun _ => rfl, fun h => absurd hsize (Nat.not_le.2 h)⟩

namespace Successors

def engine : Engine where
  clock := { step := 1 }

/-- The numbers that follow those of an array, in which something else comes last. -/
def query : Body :=
  [.mk (.someDecl [.call (.ref (.var "internal") [.string "member_2"])
      [.var "x", .array [.number 1, .number 2, .string "a"]]]) false [] 0,
    .mk (.term (.call (.ref (.var "eq") []) [.var "y", .call (.ref (.var "plus") []) [.var "x", .number 1]])) false [] 1]

/-- The query fails in the end, and gives two solutions to a caller that stops there. -/
theorem evalQueryWith_two :
    (engine.evalQueryWith none query Query.takeAll #[]).1.result.1.isOk = false ∧
    (engine.evalQueryWith none query (Query.takeUpTo 2) #[]).1.result.1 = .ok () ∧
      ((engine.evalQueryWith none query Query.takeAll #[]).1.result.2.toList.take 2).map
        (fun s => s.bindings.map Prod.snd) == [[.number 1, .number 2], [.number 2, .number 3]] ∧
      (engine.evalQueryWith none query (Query.takeUpTo 2) #[]).1.result.2.toList =
        (engine.evalQueryWith none query Query.takeAll #[]).1.result.2.toList.take 2 := by
  obtain ⟨hbegins, hstopped, -⟩ := engine.evalQueryWith_takeUpTo none query (n := 2) (by decide)
  exact ⟨by decide +kernel, hstopped (by decide +kernel), by decide +kernel, hbegins⟩

end Successors

/-! ## Cancellation -/

deriving instance DecidableEq for Reply

namespace Query

/-- Keeps a log of the replies of a caller, whose requests for cancellation are passed on or not. -/
def logging (heed : Bool) (deliver : Solution → α → Reply × α) (solution : Solution) (found : α × List Reply) :
    Reply × (α × List Reply) :=
  let (reply, a) := deliver solution found.1
  ({ reply with cancel := heed && reply.cancel }, (a, found.2 ++ [reply]))

/-- The last reply, and no other, asks for cancellation. -/
def CancelsLast (log : List Reply) : Prop :=
  ∃ earlier reply, log = earlier ++ [reply] ∧ reply.cancel = true ∧ ∀ r ∈ earlier, r.cancel = false

theorem CancelsLast.later_eq {earlier later : List Reply} {reply : Reply}
    (h : CancelsLast (earlier ++ reply :: later)) (hreply : reply.cancel = true) : later = [] := by
  obtain ⟨before, last, hlog, -, hbefore⟩ := h
  rcases later.eq_nil_or_concat with rfl | ⟨between, r, rfl⟩
  · rfl
  · rw [List.concat_eq_append, ← List.cons_append, ← List.append_assoc] at hlog
    have hin : reply ∈ before := by
      rw [← (List.append_inj' hlog rfl).1]
      exact List.mem_append_right _ List.mem_cons_self
    rw [hbefore reply hin] at hreply
    cases hreply

/-- A caller that is not heard beside the same caller when it is. -/
def cancelling (α : Type) : Cut (α × List Reply) (α × List Reply) where
  live found found' := found' = found ∧ ∀ r ∈ found.2, r.cancel = false
  winding found found' := found' = found ∧ CancelsLast found.2
  ended _ found' := CancelsLast found'.2
  ending := .error .cancelled

theorem lawful_cancelling (α : Type) {env : Env} (h : env.options.cancellable = true) :
    (cancelling α).Lawful env := by
  refine ⟨nofun, ?_⟩
  rintro found _ ⟨rfl, hlog⟩
  exact ⟨h, rfl, hlog⟩

theorem follows_logging (deliver : Solution → α → Reply × α) (names : List String) :
    (cancelling α).Follows (Search.handing names (logging false deliver))
      (Search.handing names (logging true deliver)) := by
  refine ⟨?_, fun _ _ _ h => h⟩
  rintro ⟨a, log⟩ _ s ⟨rfl, hlog⟩
  simp only [Search.handing, logging, Bool.false_and, Bool.true_and, Bool.or_false]
  generalize deliver (Query.solution names s.bindings) a = replied
  obtain ⟨⟨flow, cancel⟩, a₁⟩ := replied
  cases cancel with
  | true =>
    simp only [Bool.or_true]
    exact .winding ⟨rfl, log, _, rfl, rfl, hlog⟩
  | false =>
    simp only [Bool.or_false]
    refine .live ⟨rfl, fun r hr => ?_⟩
    rcases List.mem_append.1 hr with hr | hr
    · exact hlog r hr
    · rw [List.mem_singleton.1 hr]

end Query

/-- Once a caller has asked for cancellation it gets no further solution. The query ends as cancelled, unless nothing
was left to do: then it succeeds, with the report of the query that does not hear of the request. -/
theorem Engine.evalQueryWith_cancelled (e : Engine) (txn : Option Transaction) (query : Body)
    (deliver : Solution → α → Reply × α) (first : α) (hcancellable : e.options.cancellable = true) :
    let heeded := (e.evalQueryWith txn query (Query.logging true deliver) (first, [])).1
    let unheeded := (e.evalQueryWith txn query (Query.logging false deliver) (first, [])).1
    ∀ earlier reply later, heeded.result.2.2 = earlier ++ reply :: later → reply.cancel = true →
      later = [] ∧ (heeded.result.1 = .error .cancelled ∨ heeded.result.1 = .ok () ∧ heeded = unheeded) := by
  simp only [Engine.evalQueryWith]
  rcases e.run_alike txn with ⟨err, hrun⟩ | ⟨env, s, hoptions, hrun⟩
  · simp only [hrun]
    intro earlier reply later hlog
    cases earlier <;> cases hlog
  · simp only [hrun]
    have hlawful : (Query.cancelling α).Lawful env := Query.lawful_cancelling α (hoptions ▸ hcancellable)
    have hcut := Cut.Follows.evalQuery hlawful query (Query.follows_logging deliver)
    have hend := hcut.meets (first, []) (first, []) s ⟨rfl, nofun⟩
    generalize env.evalQuery query (Query.logging false deliver) (first, []) s = r at hend ⊢
    generalize env.evalQuery query (Query.logging true deliver) (first, []) s = r' at hend ⊢
    intro earlier reply later hlog hreply
    cases hend with
    | live h =>
      obtain ⟨rfl, hnone⟩ := h
      have hquiet := hnone reply (hlog ▸ List.mem_append_right _ List.mem_cons_self)
      rw [hreply] at hquiet
      cases hquiet
    | winding h =>
      obtain ⟨rfl, hlast⟩ := h
      exact ⟨(hlog ▸ hlast).later_eq hreply, .inr ⟨rfl, rfl⟩⟩
    | ended he h =>
      refine ⟨(hlog ▸ h : Query.CancelsLast (earlier ++ reply :: later)).later_eq hreply, .inl ?_⟩
      rw [he]
      rfl

namespace Members

/-- An engine whose evaluations can be cancelled. -/
def engine : Engine where
  options := { cancellable := true }
  clock := { step := 1 }

/-- The members of an array. -/
def query : Body :=
  [.mk (.someDecl [.call (.ref (.var "internal") [.string "member_2"])
    [.var "x", .array [.number 1, .number 2, .number 3]]]) false [] 0]

/-- Counts solutions, and asks for cancellation at one of them. -/
def cancelAt (n : Nat) (_ : Solution) (count : Nat) : Reply × Nat := ({ cancel := count + 1 == n }, count + 1)

/-- The report for that caller, heard or not. -/
def report (heed : Bool) (n : Nat) : Report (Except EvalError Unit × Nat × List Reply) :=
  (engine.evalQueryWith none query (Query.logging heed (cancelAt n)) (0, [])).1

/-- Asked at the second of three members the evaluation is cancelled; asked at the last one it succeeds as it would
have anyway. -/
theorem evalQueryWith_members : (report true 2).result.1 = .error .cancelled ∧ (report true 2).result.2.1 = 2 ∧
    (report true 3).result.1 = .ok () ∧ report true 3 = report false 3 := by
  have hsecond := engine.evalQueryWith_cancelled none query (cancelAt 2) 0 rfl [{ }] { cancel := true } []
    (by decide +kernel) rfl
  have hlast := engine.evalQueryWith_cancelled none query (cancelAt 3) 0 rfl [{ }, { }] { cancel := true } []
    (by decide +kernel) rfl
  have hfails : (report true 2).result.1.isOk = false := by decide +kernel
  have hsucceeds : (report true 3).result.1.isOk = true := by decide +kernel
  refine ⟨hsecond.2.resolve_right fun h => ?_, by decide +kernel, hlast.2.resolve_left fun h => ?_⟩
  · rw [show (report true 2).result.1 = .ok () from h.1] at hfails
    cases hfails
  · rw [show (report true 3).result.1 = .error .cancelled from h] at hsucceeds
    cases hsucceeds

end Members

end PolicyEngine
