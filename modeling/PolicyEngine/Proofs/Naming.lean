import PolicyEngine.Proofs.Declarations
import PolicyEngine.Proofs.Layout
import PolicyEngine.Proofs.Recollection

/-!
Dotted names of paths. A name is read back as the pieces of its keys between points, the empty ones left out. So the
name of a path stands for it if no key is empty or has a point in it, and only then. In a policy with such paths the
names of rule sets can take their place: for functions that are called by name, and for rule sets in progress.
-/
namespace PolicyEngine

/-! ## Pieces between points -/

theorem splitDots.go_point (left right piece : List Char) :
    splitDots.go (left ++ '.' :: right) piece = splitDots.go left piece ++ splitDots.go right [] := by
  induction left generalizing piece with
  | nil => simp [splitDots.go]
  | cons c rest ih =>
    simp only [List.cons_append, splitDots.go]
    split
    · rw [ih, List.cons_append]
    · exact ih (c :: piece)

/-- What stands before a point and what stands after it is split apart. -/
theorem splitDots_point (s t : String) : splitDots (s ++ "." ++ t) = splitDots s ++ splitDots t := by
  have hchars : (s ++ "." ++ t).toList = s.toList ++ '.' :: t.toList := by simp
  rw [splitDots, hchars, splitDots.go_point]
  rfl

theorem splitDots.go_whole {cs : List Char} (h : '.' ∉ cs) (piece : List Char) :
    splitDots.go cs piece = [String.ofList (piece.reverse ++ cs)] := by
  induction cs generalizing piece with
  | nil => simp [splitDots.go]
  | cons c rest ih =>
    have hc : (c == '.') = false := by
      rw [beq_eq_false_iff_ne]
      rintro rfl
      exact h List.mem_cons_self
    simp only [splitDots.go, hc, Bool.false_eq_true, if_false]
    rw [ih (fun hrest => h (List.mem_cons_of_mem c hrest)), List.reverse_cons, List.append_assoc,
      List.singleton_append]

/-- A text without points is its own only piece. -/
theorem splitDots_whole {s : String} (h : '.' ∉ s.toList) : splitDots s = [s] := by
  rw [splitDots, splitDots.go_whole h, List.reverse_nil, List.nil_append, String.ofList_toList]

theorem splitDots.no_point {cs piece : List Char} (hpiece : '.' ∉ piece) {s : String}
    (hs : s ∈ splitDots.go cs piece) : '.' ∉ s.toList := by
  induction cs generalizing piece with
  | nil =>
    obtain rfl := List.mem_singleton.1 hs
    simpa using hpiece
  | cons c rest ih =>
    simp only [splitDots.go] at hs
    split at hs
    · rcases List.mem_cons.1 hs with rfl | hs
      · simpa using hpiece
      · exact ih List.not_mem_nil hs
    · next hc =>
      have hne : '.' ≠ c := fun heq => hc (beq_iff_eq.2 heq.symm)
      exact ih (List.not_mem_cons_of_ne_of_not_mem hne hpiece) hs

/-! ## Plain paths -/

namespace DataPath

/-- The keys of the path can be told from its name: none is empty, and none has a point in it. -/
def Plain (path : DataPath) : Prop := ∀ key ∈ path, key ≠ "" ∧ '.' ∉ key.toList

instance (path : DataPath) : Decidable path.Plain := inferInstanceAs (Decidable (∀ key ∈ path, _))

theorem name_snoc (path : DataPath) (key : String) : name (path ++ [key]) = name path ++ "." ++ key := by
  rw [name, List.foldl_append]
  rfl

theorem splitDots_name (path : DataPath) : splitDots path.name = "data" :: path.flatMap splitDots := by
  induction path using List.reverseRecOn with
  | nil => decide
  | append_singleton before key ih => rw [name_snoc, splitDots_point, ih, List.flatMap_append, List.flatMap_singleton,
      List.cons_append]

/-- What the name of any path is read as. -/
theorem parse?_name (path : DataPath) : parse? path.name = some ((path.flatMap splitDots).filter (!·.isEmpty)) := by
  simp only [parse?, splitDots_name]

/-- The name of a path is read as that path if the keys can be told from it. -/
theorem parse?_name_iff {path : DataPath} : parse? path.name = some path ↔ path.Plain := by
  rw [parse?_name, Option.some.injEq]
  constructor
  · intro hread key hkey
    rw [← hread, List.mem_filter, List.mem_flatMap] at hkey
    obtain ⟨⟨whole, _, hpiece⟩, hfull⟩ := hkey
    exact ⟨by simpa using hfull, splitDots.no_point List.not_mem_nil hpiece⟩
  · intro hplain
    have hpieces : path.flatMap splitDots = path := by
      rw [List.flatMap_congr (fun key hkey => splitDots_whole (hplain key hkey).2), List.flatMap_singleton']
    rw [hpieces, List.filter_eq_self]
    intro key hkey
    simpa using (hplain key hkey).1

/-- Plain paths have different names. -/
theorem Plain.eq_of_name {path path' : DataPath} (h : path.Plain) (h' : path'.Plain) (hname : path.name = path'.name) :
    path = path' := by
  rw [← parse?_name_iff] at h h'
  rw [hname, h'] at h
  exact (Option.some.inj h).symm

/-- A point in a key is not told from one between keys. -/
example : ¬Plain ["a.b"] ∧ name ["a.b"] = name ["a", "b"] ∧ parse? (name ["a.b"]) = some ["a", "b"] := by
  decide

end DataPath

/-! ## Rule sets by their names -/

namespace Policy

variable {policy : Policy}

def Plain (policy : Policy) : Prop := ∀ rs ∈ policy.ruleSets, rs.path.Plain

/-- Rule sets have the paths that rules were declared for. -/
theorem plain_of_compile {modules : List Module} (hcompile : compile modules = .ok policy)
    (h : ∀ d ∈ Module.declared modules, d.1.Plain) : policy.Plain := by
  intro rs hrs
  obtain ⟨_, hgathers, _⟩ := compile_eq_ok_iff.1 hcompile
  obtain ⟨found, hfound⟩ := Option.isSome_iff_exists.1 (ruleSet?_isSome hrs)
  have hrules := hgathers.ruleSet? rs.path
  rw [hfound, gathered?, eq_comm, Option.map_eq_some_iff] at hrules
  obtain ⟨rule, hrule, _⟩ := hrules
  obtain ⟨d, hd, _⟩ := List.mem_map.1 (List.mem_of_head? hrule)
  rw [List.mem_filter, beq_iff_eq] at hd
  exact hd.2 ▸ h d hd.1

theorem Plain.parse?_name (h : policy.Plain) {rs : RuleSet} (hrs : rs ∈ policy.ruleSets) :
    DataPath.parse? rs.name = some rs.path :=
  DataPath.parse?_name_iff.2 (h rs hrs)

/-- In a policy with plain paths a name belongs to one rule set. -/
theorem Plain.eq_of_name (h : policy.Plain) (hdistinct : policy.Distinct) {rs rs' : RuleSet}
    (hrs : rs ∈ policy.ruleSets) (hrs' : rs' ∈ policy.ruleSets) (hname : rs'.name = rs.name) : rs' = rs :=
  hdistinct rs hrs rs' hrs' ((h rs' hrs').eq_of_name (h rs hrs) hname)

end Policy

/-! ## Rule sets in progress -/

/-- The rule sets in progress are these, of the policy. -/
structure State.Within (policy : Policy) (stack : List RuleSet) (s : State) : Prop where
  names : s.inProgress = stack.map RuleSet.name
  ruleSets : ∀ rs ∈ stack, rs ∈ policy.ruleSets

theorem State.Within.entered {policy : Policy} {stack : List RuleSet} {s : State} (h : s.Within policy stack)
    {rs : RuleSet} (hrs : rs ∈ policy.ruleSets) : (s.entered rs.name).Within policy (stack ++ [rs]) := by
  refine ⟨?_, fun r hr => ?_⟩
  · rw [List.map_append, ← h.names]
    rfl
  · rcases List.mem_append.1 hr with hr | hr
    · exact h.ruleSets r hr
    · exact List.mem_singleton.1 hr ▸ hrs

theorem State.Within.contains_iff {policy : Policy} {stack : List RuleSet} {s : State} (h : s.Within policy stack)
    (hplain : policy.Plain) (hdistinct : policy.Distinct) {rs : RuleSet} (hrs : rs ∈ policy.ruleSets) :
    s.inProgress.contains rs.name = true ↔ rs ∈ stack := by
  rw [List.contains_iff_mem, h.names, List.mem_map]
  constructor
  · rintro ⟨r, hr, hname⟩
    exact hplain.eq_of_name hdistinct hrs (h.ruleSets r hr) hname ▸ hr
  · intro hr
    exact ⟨rs, hr, rfl⟩

namespace Env

variable {env : Env} {β : Type}

/-- In a policy with plain paths a rule set is refused for recursion if it is itself in progress. Others are entered,
unless the nesting is too deep. -/
theorem run_entering_plain (hplain : env.policy.Plain) (hdistinct : env.policy.Distinct) {rs : RuleSet}
    (hrs : rs ∈ env.policy.ruleSets) {stack : List RuleSet} {s : State} (hs : s.Within env.policy stack) (m : Eval β) :
    (rs ∈ stack → (env.entering rs m).run s = (.error (.recursion (s.inProgress ++ [rs.name])), s)) ∧
      (rs ∉ stack → s.depth < env.options.maxDepth →
        (env.entering rs m).run s = (Eval.inside rs.name m).run s) := by
  rw [← hs.contains_iff hplain hdistinct hrs, run_entering]
  constructor
  · intro hin
    rw [if_pos hin]
  · intro hout hdepth
    rw [if_neg hout, if_neg (by omega)]

/-! ## Functions by their names -/

/-- The function called by the name of a plain path is the one that is defined at the path. -/
theorem ruleFunction?_name {path : DataPath} (h : path.Plain) :
    env.ruleFunction? path.name = (env.policy.ruleSet? path).filter fun rs => rs.kind = .function := by
  rw [ruleFunction?, DataPath.parse?_name_iff.2 h, Option.bind_some]

end Env
end PolicyEngine
