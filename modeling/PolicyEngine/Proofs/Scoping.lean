import PolicyEngine.Proofs.Reading
import PolicyEngine.Proofs.Recording

/-!
Documents are remembered for as long as the scope they were computed in. At every moment of an evaluation the scope in
force is the outermost one or one that was opened for an expression whose evaluation is not over, and so are the scopes
for which documents are remembered. A number stands for the same overrides throughout.
-/
namespace PolicyEngine

/-- The outermost scope, or one that is open. -/
def OutermostOrOpen (opened : List Nat) (scope : Nat) : Prop := scope = 0 ∨ scope ∈ opened

namespace Course

variable {env : Env} {c c' : Course}

/-- What is remembered and what is in force belongs to open scopes at every moment, and a scope is known by its
number. -/
structure Scoped (c : Course) : Prop where
  current : ∀ m ∈ c.moments, OutermostOrOpen m.opened m.state.scope.id
  memo : ∀ m ∈ c.moments, ∀ entry ∈ m.state.memo, OutermostOrOpen m.opened entry.scope
  bounded : ∀ m ∈ c.moments, m.state.scope.id ≤ c.state.lastScope
  determined : ∀ m ∈ c.moments, ∀ m' ∈ c.moments, m.state.scope.id = m'.state.scope.id → m.state.scope = m'.state.scope

theorem scoped_start {s : State} (hscope : s.scope.id = 0) (hmemo : s.memo = []) : (start s).Scoped := by
  refine ⟨?_, ?_, ?_, ?_⟩ <;> rintro m (_ | ⟨_, ⟨⟩⟩)
  · exact .inl hscope
  · intro entry hentry
    cases hmemo ▸ hentry
  · exact hscope.trans_le (Nat.zero_le _)
  · rintro m (_ | ⟨_, ⟨⟩⟩) _
    rfl

/-- A moment whose scope was in force before. -/
theorem Scoped.reach (h : c.Scoped) {m m₀ : Moment} (hm₀ : m₀ ∈ c.moments) (hscope : m.state.scope = m₀.state.scope)
    (hcurrent : OutermostOrOpen m.opened m₀.state.scope.id)
    (hmemo : ∀ entry ∈ m.state.memo, OutermostOrOpen m.opened entry.scope)
    (hlast : m.state.lastScope = c.state.lastScope) : (c.reach m).Scoped := by
  have hlast : (c.reach m).state.lastScope = c.state.lastScope := hlast
  refine ⟨List.forall_mem_cons.2 ⟨hscope ▸ hcurrent, h.current⟩, List.forall_mem_cons.2 ⟨hmemo, h.memo⟩, ?_, ?_⟩
  · rw [hlast]
    exact List.forall_mem_cons.2 ⟨hscope ▸ h.bounded m₀ hm₀, h.bounded⟩
  · refine List.forall_mem_cons.2 ⟨List.forall_mem_cons.2 ⟨fun _ => rfl, fun m' hm' hid => ?_⟩, fun m' hm' =>
      List.forall_mem_cons.2 ⟨fun hid => ?_, h.determined m' hm'⟩⟩
    · exact hscope.trans (h.determined m₀ hm₀ m' hm' ((congrArg Scope.id hscope).symm.trans hid))
    · exact (h.determined m' hm' m₀ hm₀ (hid.trans (congrArg Scope.id hscope))).trans hscope.symm

/-- A moment in the same scope that remembers the same. -/
theorem Scoped.stay (h : c.Scoped) {s : State} {refused : Option EvalError} (hscope : s.scope = c.state.scope)
    (hmemo : s.memo = c.state.memo) (hlast : s.lastScope = c.state.lastScope) :
    (c.reach { state := s, opened := c.now.opened, refused := refused }).Scoped := by
  refine h.reach c.now_mem hscope (h.current c.now c.now_mem) (fun entry hentry => ?_) hlast
  exact h.memo c.now c.now_mem entry (hmemo ▸ hentry)

/-- A new scope has a number that no scope had. -/
theorem Scoped.openScope (h : c.Scoped) (σ : Scope) : (c.openScope σ).Scoped := by
  have hlater : ∀ m ∈ c.moments, m.state.scope.id ≠ c.state.lastScope + 1 := by
    intro m hm
    have hle := h.bounded m hm
    omega
  refine ⟨List.forall_mem_cons.2 ⟨.inr List.mem_cons_self, h.current⟩,
    List.forall_mem_cons.2 ⟨fun entry hentry => ?_, h.memo⟩,
    List.forall_mem_cons.2 ⟨Nat.le_refl _, fun m hm => Nat.le_succ_of_le (h.bounded m hm)⟩, ?_⟩
  · exact (h.memo _ c.now_mem entry hentry).imp_right fun hopened => List.mem_cons_of_mem _ hopened
  · refine List.forall_mem_cons.2 ⟨List.forall_mem_cons.2 ⟨fun _ => rfl, fun m hm hid => ?_⟩, fun m hm =>
      List.forall_mem_cons.2 ⟨fun hid => absurd hid (hlater m hm), h.determined m hm⟩⟩
    exact absurd hid.symm (hlater m hm)

/-- When a scope is closed, the documents remembered for it are forgotten. -/
theorem Scoped.closeScope (h : c.Scoped) {m : Moment} {id : Nat} (hm : m ∈ c.moments)
    (hopened : c.now.opened = id :: m.opened) : (c.closeScope id m.state.scope).Scoped := by
  have htail : c.now.opened.tail = m.opened := congrArg List.tail hopened
  refine h.reach hm rfl ((h.current m hm).imp_right (htail ▸ ·)) (fun entry hentry => ?_) rfl
  obtain ⟨hmem, hne⟩ := List.mem_filter.1 hentry
  refine (h.memo _ c.now_mem entry hmem).imp_right fun hin => ?_
  rw [hopened] at hin
  rcases List.mem_cons.1 hin with heq | hin
  · simp [heq] at hne
  · exact htail ▸ hin

/-- Every move keeps to open scopes. -/
theorem Scoped.move (h : c.Scoped) (hmove : c.Moves env c') : c'.Scoped := by
  cases hmove with
  | stay hs => exact h.stay (congrArg Context.scope hs.context) hs.memo hs.lastScope
  | remember path value =>
    have hcurrent := h.current c.now c.now_mem
    exact h.reach c.now_mem rfl hcurrent (List.forall_mem_cons.2 ⟨hcurrent, h.memo c.now c.now_mem⟩) rfl
  | enter hrs hfree => exact h.stay rfl rfl rfl
  | leave hprogress hdepth => exact h.stay rfl rfl rfl
  | refuseCircle hmem => exact h.stay rfl rfl rfl
  | refuseDepth hrs hfree hdeep => exact h.stay rfl rfl rfl
  | openScope σ => exact h.openScope σ
  | setScope hm hopened =>
    exact h.reach hm rfl ((h.current _ hm).imp_right fun hin => hopened.mem hin) (h.memo c.now c.now_mem) rfl
  | closeScope hm hopened => exact h.closeScope hm hopened

theorem Scoped.run (h : c.Scoped) (hruns : c.Runs env c') : c'.Scoped := by
  induction hruns with
  | refl => exact h
  | tail _ hmove ih => exact ih.move hmove

/-- When no scope is open any more, what is remembered belongs to the outermost scope. -/
theorem Comes.scoped {outcome : Except EvalError β} (h : c.Comes env outcome c') (hc : c.Scoped)
    (hopened : c.now.opened = []) : c'.Scoped ∧ ∀ entry ∈ c'.state.memo, entry.scope = 0 := by
  have hscoped := hc.run h.runs
  refine ⟨hscoped, fun entry hentry => ?_⟩
  rcases hscoped.memo c'.now c'.now_mem entry hentry with hzero | hin
  · exact hzero
  · rw [h.opened, hopened] at hin
    cases hin

end Course

/-- Throughout the evaluation of a query and of a document, which the recorded evaluations are, documents are remembered
for open scopes only, and the number of a scope determines its overrides. After the evaluation no scope is open. -/
theorem evaluation_scoped {α : Type} (e : Engine) (policy : Policy) (txn : Transaction) :
    (∀ (body : Body) (deliver : Solution → α → Reply × α) (first : α),
      let r := Course.evalQuery (e.env policy txn) body deliver first (.start e.start)
      (e.env policy txn).evalQuery body deliver first e.start = r.erase ∧ r.course.Scoped ∧
        ∀ entry ∈ r.course.state.memo, entry.scope = 0) ∧
    ∀ path : DataPath,
      let r := (Course.evalPath (e.env policy txn) path).run (.start e.start)
      ((e.env policy txn).evalPath path).run e.start = (r.1, r.2.state) ∧ r.2.Scoped ∧
        ∀ entry ∈ r.2.state.memo, entry.scope = 0 := by
  have hstart : (Course.start e.start).Scoped := Course.scoped_start rfl rfl
  constructor
  · intro body deliver first
    obtain ⟨herases, hcomes⟩ := Course.evalQuery_recorded e policy txn body deliver first
    exact ⟨herases, hcomes.scoped hstart rfl⟩
  · intro path
    obtain ⟨herases, hcomes⟩ := Course.evalPath_recorded e policy txn path
    exact ⟨herases, hcomes.scoped hstart rfl⟩

/-! ### A document under an override -/

namespace Overridden

open Hidden in
def modules : List Module := [⟨["t"], [holds "c" [ofInput "go"], holds "d" [asks [.string "t", .string "c"] []]]⟩]

def policy : Policy := (Policy.compile modules).toOption.getD {}

def engine : Engine := { clock := { step := 1 } }

/-- Asks for a document under an input of its own, and for another one without it. -/
def query : Body :=
  [Hidden.asks [.string "t", .string "d"] [(.ref (.var "input") [], .object [(.string "go", .number 1)])],
    Hidden.asks [.string "t"] []]

def recorded : Course.Step Nat :=
  Course.evalQuery (engine.env policy engine.store.beginRead.1) query (fun _ n => ({}, n + 1)) 0 (.start engine.start)

/-- A document is remembered for the scope of the override while the scope is open, and for no such scope after it. -/
theorem evaluation_overridden :
    Policy.compile modules = .ok policy ∧ recorded.found = 1 ∧
    (∃ m ∈ recorded.course.moments, ∃ entry ∈ m.state.memo, entry.scope ≠ 0 ∧ entry.scope ∈ m.opened) ∧
    recorded.course.state.memo ≠ [] ∧ ∀ entry ∈ recorded.course.state.memo, entry.scope = 0 := by
  have hrecorded : _ ∧ recorded.course.Scoped ∧ ∀ entry ∈ recorded.course.state.memo, entry.scope = 0 :=
    (evaluation_scoped engine policy engine.store.beginRead.1).1 query (fun _ n => ({}, n + 1)) 0
  have hremembered : (recorded.course.moments.any fun m => m.state.memo.any fun entry => entry.scope != 0) = true := by
    decide +kernel
  obtain ⟨m, hm, hany⟩ := List.any_eq_true.1 hremembered
  obtain ⟨entry, hentry, hne⟩ := List.any_eq_true.1 hany
  have hne : entry.scope ≠ 0 := by simpa using hne
  have hopen := (hrecorded.2.1.memo m hm entry hentry).resolve_left hne
  have hkept : recorded.course.state.memo.isEmpty = false := by decide +kernel
  refine ⟨Except.eq_ok_of_isOk (by decide +kernel) {}, by decide +kernel, ⟨m, hm, entry, hentry, hne, hopen⟩, ?_,
    hrecorded.2.2⟩
  intro hempty
  rw [hempty] at hkept
  cases hkept

end Overridden

end PolicyEngine
