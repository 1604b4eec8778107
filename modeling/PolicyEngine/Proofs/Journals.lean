import PolicyEngine.Proofs.Histories
import Mathlib.Logic.Function.Basic

/-!
Values kept in place. Instead of a stack of assignments an environment can have one table of the values in force. Each
change overwrites the table and records what the variable had before; going back to a choice point takes the records
off again, the newest first, and puts the old values back. The two ways of keeping an environment hold the same, and
going back restores both exactly: the table, the records and the stack, whatever was bound, unified, covered, hidden
and taken back in the meantime.
-/
namespace PolicyEngine

/-- A table of the values in force, and what each change replaced in it, the newest first. -/
structure Journal where
  values : String → Option Term
  trail : List (String × Option Term)

namespace Journal

/-! ## Changes in place -/

/-- A choice point, to which the journal can be taken back. -/
def mark (j : Journal) : Nat := j.trail.length

/-- Gives a variable a value, or none. What it had before, which may be none as well, goes on the trail. -/
def set (name : String) (value : Option Term) (j : Journal) : Journal :=
  ⟨Function.update j.values name value, (name, j.values name) :: j.trail⟩

/-- Puts back in the table what the newest changes replaced, as long as the trail is longer than the mark. -/
def undoFrom (mark : Nat) (values : String → Option Term) : List (String × Option Term) → Journal
  | [] => ⟨values, []⟩
  | (name, previous) :: earlier =>
    if mark < earlier.length + 1 then undoFrom mark (Function.update values name previous) earlier
    else ⟨values, (name, previous) :: earlier⟩

/-- Takes back the changes made after a choice point. -/
def undo (mark : Nat) (j : Journal) : Journal := undoFrom mark j.values j.trail

variable {j j' j'' : Journal} {mark later : Nat} {name : String} {value : Option Term}

@[simp] theorem mark_set : (j.set name value).mark = j.mark + 1 := rfl

theorem undo_of_mark_le (h : j.mark ≤ mark) : j.undo mark = j := by
  obtain ⟨values, _ | ⟨a, earlier⟩⟩ := j
  · rfl
  · exact if_neg (Nat.not_lt.2 h)

/-- A change and its record cancel out, whatever the variable had before. -/
theorem undo_set (h : mark ≤ j.mark) : (j.set name value).undo mark = j.undo mark := by
  have hback : Function.update (Function.update j.values name value) name (j.values name) = j.values := by
    rw [Function.update_idem, Function.update_eq_self]
  calc (j.set name value).undo mark
    _ = undoFrom mark (Function.update (Function.update j.values name value) name (j.values name)) j.trail :=
      if_pos (Nat.lt_succ_of_le h)
    _ = j.undo mark := by rw [hback, undo]

/-- Every journal with a record was made by a change. -/
theorem exists_set (h : 0 < j.mark) : ∃ j₀ name value, j = set name value j₀ := by
  obtain ⟨values, _ | ⟨⟨name, previous⟩, earlier⟩⟩ := j
  · cases h
  · refine ⟨⟨Function.update values name previous, earlier⟩, name, values name, ?_⟩
    simp [set]

/-- A property of journals holds of all if it holds before any change and every change keeps it. -/
theorem induction {P : Journal → Prop} (start : ∀ j, j.mark = 0 → P j)
    (step : ∀ j name value, P j → P (j.set name value)) (j : Journal) : P j := by
  generalize hn : j.mark = n
  induction n generalizing j with
  | zero => exact start j hn
  | succ n ih =>
    obtain ⟨j₀, name, value, rfl⟩ := exists_set (j := j) (by omega)
    exact step j₀ name value (ih j₀ (Nat.succ.inj hn))

theorem mark_undo (j : Journal) : (j.undo mark).mark = min j.mark mark := by
  induction j using induction with
  | start j hj => rw [undo_of_mark_le (by omega)]; omega
  | step j name value ih =>
    rcases Nat.lt_or_ge j.mark mark with h | h
    · rw [undo_of_mark_le h, mark_set]; omega
    · rw [undo_set h, ih, mark_set]; omega

/-- A choice point can be gone back to by way of a later one. -/
theorem undo_undo (h : mark ≤ later) (j : Journal) : (j.undo later).undo mark = j.undo mark := by
  induction j using induction with
  | start j hj => rw [undo_of_mark_le (hj.trans_le (Nat.zero_le later))]
  | step j name value ih =>
    rcases Nat.lt_or_ge j.mark later with hlater | hlater
    · rw [undo_of_mark_le (j := j.set name value) hlater]
    · rw [undo_set hlater, ih, undo_set (h.trans hlater)]

theorem set_injective {name' : String} {value' : Option Term} (h : j.set name value = j'.set name' value') :
    name = name' ∧ value = value' ∧ j = j' := by
  have hmark : j.mark = j'.mark := Nat.succ.inj (congrArg mark h)
  have hj : j = j' := by
    calc j
      _ = (j.set name value).undo j.mark := by rw [undo_set le_rfl, undo_of_mark_le le_rfl]
      _ = (j'.set name' value').undo j'.mark := by rw [h, hmark]
      _ = j' := by rw [undo_set le_rfl, undo_of_mark_le le_rfl]
  have hname : name = name' := congrArg Prod.fst (List.head_eq_of_cons_eq (congrArg trail h))
  refine ⟨hname, ?_, hj⟩
  have hvalue := congrFun (congrArg values h) name
  subst hname
  simpa [set] using hvalue

/-! ## Histories of changes -/

/-- The journals that come from another by setting variables and going back, though not beyond a mark. -/
inductive Reaches (mark : Nat) (j : Journal) : Journal → Prop where
  | refl : Reaches mark j j
  | set {j' : Journal} (name : String) (value : Option Term) : Reaches mark j j' → Reaches mark j (j'.set name value)
  | undo {j' : Journal} (later : Nat) : mark ≤ later → Reaches mark j j' → Reaches mark j (j'.undo later)

theorem Reaches.trans (h : Reaches mark j j') (h' : Reaches mark j' j'') : Reaches mark j j'' := by
  induction h' with
  | refl => exact h
  | set name value _ ih => exact .set name value ih
  | undo later hlater _ ih => exact .undo later hlater ih

theorem Reaches.mark_le (h : Reaches mark j j') (hj : mark ≤ j.mark) : mark ≤ j'.mark := by
  induction h with
  | refl => exact hj
  | set name value _ ih => exact Nat.le_succ_of_le ih
  | undo later hlater _ ih => rw [mark_undo]; exact Nat.le_min.2 ⟨ih, hlater⟩

/-- Going back comes to the same after a history as before it. -/
theorem Reaches.undo_eq (h : Reaches mark j j') (hj : mark ≤ j.mark) : j'.undo mark = j.undo mark := by
  induction h with
  | refl => rfl
  | set name value h ih => rw [undo_set (h.mark_le hj), ih]
  | undo later hlater _ ih => rw [undo_undo hlater, ih]

/-- What a history began with is restored by going back to where it began. -/
theorem Reaches.undo_mark (h : Reaches j.mark j j') : j'.undo j.mark = j := by
  rw [h.undo_eq le_rfl, undo_of_mark_le le_rfl]

end Journal

namespace Bindings

/-! ## The journal of an environment -/

/-- The value, if any, that each of a list of assignments took the place of. -/
def replaced : List (String × Option Term) → List (String × Option Term)
  | [] => []
  | (name, _) :: earlier => (name, lookup name ⟨earlier⟩) :: replaced earlier

/-- An environment with its values in place. -/
def journal (b : Bindings) : Journal := ⟨fun name => b.lookup name, replaced b.assignments⟩

variable {b b' : Bindings} {mark : Nat}

theorem mark_journal (b : Bindings) : b.journal.mark = b.mark := by
  obtain ⟨assignments⟩ := b
  induction assignments with
  | nil => rfl
  | cons a earlier ih => exact congrArg (· + 1) ih

/-- An assignment is a change in place. -/
theorem journal_assign (name : String) (value : Option Term) (b : Bindings) :
    (b.assign name value).journal = b.journal.set name value := by
  have hvalues : (fun x => (b.assign name value).lookup x) = Function.update (fun x => b.lookup x) name value := by
    funext x
    rw [lookup_assign, Function.update_apply]
    exact if_congr eq_comm rfl rfl
  exact congrArg (Journal.mk · (replaced (b.assign name value).assignments)) hvalues

theorem undo_of_mark_le (h : b.mark ≤ mark) : b.undo mark = b := by
  have hnone : b.assignments.length - mark = 0 := Nat.sub_eq_zero_of_le h
  rw [undo, hnone, List.drop_zero]

theorem undo_assign (h : mark ≤ b.mark) (name : String) (value : Option Term) :
    (b.assign name value).undo mark = b.undo mark := by
  have hdrop : b.assignments.length + 1 - mark = b.assignments.length - mark + 1 := Nat.succ_sub h
  exact congrArg (fun n => (⟨((name, value) :: b.assignments).drop n⟩ : Bindings)) hdrop

/-- Dropping the newest assignments is putting back the values that they replaced. -/
theorem journal_undo (mark : Nat) (b : Bindings) : (b.undo mark).journal = b.journal.undo mark := by
  obtain ⟨assignments⟩ := b
  induction assignments with
  | nil => rw [undo_of_mark_le (Nat.zero_le mark), Journal.undo_of_mark_le (Nat.zero_le mark)]
  | cons a earlier ih =>
    have hassign : (⟨a :: earlier⟩ : Bindings) = assign a.1 a.2 ⟨earlier⟩ := rfl
    -- up to the mark nothing is taken back; beyond it the newest assignment and its record cancel out
    rcases Nat.lt_or_ge (Bindings.mark ⟨earlier⟩) mark with h | h
    · rw [undo_of_mark_le h, Journal.undo_of_mark_le (by rw [mark_journal]; exact h)]
    · rw [hassign, undo_assign h, ih, journal_assign, Journal.undo_set (by rw [mark_journal]; exact h)]

theorem mark_eq_of_journal_eq (h : b.journal = b'.journal) : b.mark = b'.mark := by
  rw [← mark_journal, h, mark_journal]

/-- Nothing is lost in the journal: the assignments can be read off its trail. -/
theorem journal_injective : Function.Injective journal := by
  rintro ⟨assignments⟩ ⟨assignments'⟩ h
  induction assignments generalizing assignments' with
  | nil => exact congrArg Bindings.mk (List.length_eq_zero_iff.1 (mark_eq_of_journal_eq h).symm).symm
  | cons a earlier ih =>
    cases assignments' with
    | nil => exact absurd (mark_eq_of_journal_eq h) (Nat.succ_ne_zero _)
    | cons a' earlier' =>
      have hset : Journal.set a.1 a.2 (journal ⟨earlier⟩) = Journal.set a'.1 a'.2 (journal ⟨earlier'⟩) := by
        rw [← journal_assign, ← journal_assign]
        exact h
      obtain ⟨hname, hvalue, hj⟩ := Journal.set_injective hset
      have ha : a = a' := Prod.ext hname hvalue
      rw [ha, Bindings.mk.inj (ih earlier' hj)]

/-! ## What is done to an environment -/

/-- A single variable is bound, or one of the changes of evaluation is made. -/
inductive Move where
  | bind (name : String) (value : Term)
  | change (change : Change)

/-- Where a value contains the variable that is to be bound to it, the environment stays. -/
def Move.apply (b : Bindings) : Move → Bindings
  | .bind name value => (b.tryBind name value).2
  | .change c => c.apply b

/-- Does not go back beyond a mark. -/
def Move.NotBeyond (mark : Nat) : Move → Prop
  | .change (.undo later) => mark ≤ later
  | _ => True

def after (b : Bindings) (moves : List Move) : Bindings := moves.foldl Move.apply b

/-! ### What each move records -/

/-- A variable that matches anything, and one that would contain itself, leave no record. -/
theorem journal_tryBind (name : String) (value : Term) (b : Bindings) :
    (b.tryBind name value).2.journal =
      if name == wildcard || !value.isGround && (b.plug value).vars.contains name then b.journal
      else b.journal.set name (some value) := by
  rw [← journal_assign, tryBind, bind]
  cases hwild : name == wildcard with
  | true => rfl
  | false =>
    cases hoccurs : !value.isGround && (b.plug value).vars.contains name with
    | true => rfl
    | false => rfl

theorem journal_shadow (name : String) (value : Term) (b : Bindings) :
    (b.shadow name value).journal = if name == wildcard then b.journal else b.journal.set name (some value) := by
  rw [shadow, apply_ite journal, journal_assign]

/-- There is nothing to record where a variable is unbound already. -/
theorem journal_hide (name : String) (b : Bindings) :
    (b.hide name).journal = if (b.journal.values name).isSome then b.journal.set name none else b.journal := by
  rw [hide, apply_ite journal, journal_assign]
  rfl

/-- Assignments are made in place one by one. -/
theorem reaches_of_adds (h : b.assignments <:+ b'.assignments) : b.journal.Reaches mark b'.journal := by
  obtain ⟨new, hnew⟩ := h
  obtain ⟨assignments'⟩ := b'
  obtain rfl : new ++ b.assignments = assignments' := hnew
  induction new with
  | nil => exact .refl
  | cons a new ih =>
    have hset := journal_assign a.1 a.2 ⟨new ++ b.assignments⟩
    exact hset ▸ Journal.Reaches.set a.1 a.2 ih

/-- Unification binds variables in place; if it fails it goes back to where it began. -/
theorem reaches_tryUnify (h : mark ≤ b.mark) (x y : Term) : b.journal.Reaches mark (b.tryUnify x y).2.journal := by
  have hadds : b.journal.Reaches mark (tryUnifyTo (x.size + y.size + b.size) x y b).2.journal :=
    reaches_of_adds (inPlace_unifyTo _ x y b).adds
  rw [tryUnify]
  split
  · exact hadds
  · rw [journal_undo]
    exact .undo b.mark h hadds

theorem reaches_apply (h : mark ≤ b.mark) {move : Move} (hmove : move.NotBeyond mark) :
    b.journal.Reaches mark (move.apply b).journal := by
  cases move with
  | bind name value =>
    rw [Move.apply, journal_tryBind]
    split
    · exact .refl
    · exact .set name (some value) .refl
  | change c =>
    rw [Move.apply]
    cases c with
    | unify x y => exact reaches_tryUnify h x y
    | shadow name value =>
      rw [Change.apply, journal_shadow]
      split
      · exact .refl
      · exact .set name (some value) .refl
    | hide name =>
      rw [Change.apply, journal_hide]
      split
      · exact .set name none .refl
      · exact .refl
    | undo later =>
      rw [Change.apply, journal_undo]
      exact .undo later hmove .refl

/-- All moves together are a history of changes in place. -/
theorem reaches_after (h : mark ≤ b.mark) {moves : List Move} (hmoves : ∀ m ∈ moves, m.NotBeyond mark) :
    b.journal.Reaches mark (b.after moves).journal := by
  refine List.foldlRecOn moves Move.apply (motive := fun b' => b.journal.Reaches mark b'.journal) .refl ?_
  intro b' hb' move hmove
  -- a failed unification goes back to where it began, and that is never below the mark
  have hmark : mark ≤ b'.mark := by
    rw [← mark_journal]
    exact hb'.mark_le (h.trans_eq b.mark_journal.symm)
  exact hb'.trans (reaches_apply hmark (hmoves move hmove))

/-- Going back to a choice point restores the environment exactly, whatever was bound, unified, covered, hidden and
taken back after it. Kept in place, the environment after all of that is one that changes of its table lead to; and the
values that these replaced, put back one after another, make up the table and the trail that there were. -/
theorem undo_restores (b : Bindings) (moves : List Move) (hmoves : ∀ m ∈ moves, m.NotBeyond b.mark) :
    (b.after moves).undo b.mark = b ∧
    b.journal.Reaches b.mark (b.after moves).journal ∧
    (b.after moves).journal.undo b.mark = b.journal := by
  have hreaches : b.journal.Reaches b.mark (b.after moves).journal := reaches_after le_rfl hmoves
  have hjournal : (b.after moves).journal.undo b.mark = b.journal := by
    rw [← mark_journal] at hreaches ⊢
    exact hreaches.undo_mark
  exact ⟨journal_injective ((journal_undo _ _).trans hjournal), hreaches, hjournal⟩

/-! ### A variable changed over and over -/

namespace Rewound

/-- One variable is bound to another, which is hidden. -/
def start : Bindings := ⟨[("y", none), ("x", some (.var "y")), ("y", some (.string "old"))]⟩

/-- A variable is to be two numbers at once, which shows when it is bound to the first one. -/
def failing : Change := .unify (.array [.var "z", .var "z"]) (.array [.number 1, .number 2])

def succeeding : Change := .unify (.array [.var "x", .var "z"]) (.array [.var "y", .string "last"])

def moves : List Move :=
  [.bind wildcard (.number 1), .bind "y" (.array [.var "x"]), .bind "y" (.number 2), .change (.shadow "x" (.number 3)),
    .change failing, .change (.hide "x"), .change (.hide "x"), .change (.shadow "x" (.string "new")), .change (.undo 4),
    .change succeeding, .change (.shadow "y" (.number 4))]

/-- A wildcard, a value that contains its variable, a failed unification and the hiding of an unbound variable leave no
record. The others leave two variables bound that were not, one of them to its third value, and going back restores
what there was. -/
theorem undo_restores_rewound :
    ((start.after moves).mark = 6 ∧ (start.plug (.var "x") == .var "y") = true ∧
      ((start.after moves).plug (.array [.var "x", .var "z"]) == .array [.number 4, .string "last"]) = true) ∧
    (start.after moves).undo start.mark = start ∧
    start.journal.Reaches start.mark (start.after moves).journal ∧
    (start.after moves).journal.undo start.mark = start.journal := by
  refine ⟨by decide +kernel, undo_restores start moves ?_⟩
  simp [moves, failing, succeeding, Move.NotBeyond, start, mark]

end Rewound
end Bindings
end PolicyEngine
