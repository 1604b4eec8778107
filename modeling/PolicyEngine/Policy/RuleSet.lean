import PolicyEngine.Policy.Error
import PolicyEngine.Term.Order

/-!
Compiled policies: the rules of all modules, gathered into rule sets by the path of the document they define.
A policy lists its rule sets in the order of their paths, so the rule sets below a path stand together.
-/
namespace PolicyEngine

/-- All rules that define one document or one function. -/
structure RuleSet where
  path : DataPath
  kind : DocKind
  /-- The rules that are not defaults, as they were declared. -/
  rules : List Rule := []
  default : Option Rule := none

namespace RuleSet

def name (rs : RuleSet) : String := rs.path.name

/-- The number of parameters; zero for documents. -/
def arity (rs : RuleSet) : Nat := (rs.rules.head?.map fun r => r.first.head.params.length).getD 0

/-- Adds a rule of the given kind, if it agrees with the rules that are there. -/
def add (rule : Rule) (rs : RuleSet) : Except ModuleError RuleSet :=
  let kind := rule.first.head.kind
  if rs.kind ≠ kind then .error (.conflictingKinds rs.path rs.kind kind)
  else if kind = .function && rs.rules.head?.any (·.first.head.params.length ≠ rule.first.head.params.length) then
    .error (.parameterCount rs.path)
  else if rule.first.isDefault then
    if kind ≠ .complete then .error (.defaultKind rs.path)
    else if rs.default.isSome then .error (.multipleDefaults rs.path)
    else .ok { rs with default := some rule }
  else .ok { rs with rules := rs.rules ++ [rule] }

end RuleSet

/-! ## Heads -/

/-- Moves a last key that is not a string, or that repeats the key of the head, out of the name. -/
def Head.normalize (h : Head) : Head :=
  match h.key, h.keys.getLast? with
  | none, some last =>
    match last with
    | .string _ => h
    | last => if h.params.isEmpty then { h with key := some last, keys := h.keys.dropLast } else h
  | some key, some last => if last == key then { h with keys := h.keys.dropLast } else h
  | _, none => h

/-- Extends a path by keys that must be strings. -/
def extendPath : DataPath → List Term → Except ModuleError DataPath
  | path, [] => .ok path
  | path, .string s :: rest => extendPath (path ++ [s]) rest
  | path, t :: _ => .error (.dynamicHead path t)

/-- The path of the document that a head defines in a package. -/
def Head.path (package : List String) (h : Head) : Except ModuleError DataPath :=
  match h.name with
  | .var name | .string name => extendPath (package ++ [name]) h.keys
  | t => .error (.invalidHead t)

def Clause.normalize (package : List String) (c : Clause) : Except ModuleError (DataPath × Clause) :=
  let head := c.head.normalize
  (head.path package).map fun path => (path, { c with head := head })

/-- The path a rule defines, and the rule with normalized heads. -/
def Rule.normalize (package : List String) (r : Rule) : Except ModuleError (DataPath × Rule) := do
  let (path, first) ← r.first.normalize package
  let otherwise ← r.otherwise.mapM fun c => (c.normalize package).map Prod.snd
  .ok (path, ⟨first, otherwise⟩)

/-! ## Policies -/

structure Policy where
  ruleSets : List RuleSet := []

namespace Policy

/-- Adds a rule to rule sets in the order of their paths. -/
def insertRule (path : DataPath) (rule : Rule) : List RuleSet → Except ModuleError (List RuleSet)
  | [] => (RuleSet.add rule ⟨path, rule.first.head.kind, [], none⟩).map ([·])
  | rs :: rest =>
    match compare path rs.path with
    | .lt => (RuleSet.add rule ⟨path, rule.first.head.kind, [], none⟩).map (· :: rs :: rest)
    | .eq => (RuleSet.add rule rs).map (· :: rest)
    | .gt => (insertRule path rule rest).map (rs :: ·)

def addRule (package : List String) (sets : List RuleSet) (rule : Rule) : Except ModuleError (List RuleSet) := do
  let (path, rule) ← rule.normalize package
  insertRule path rule sets

/-- No document is both a rule and a namespace of other rules. Of paths in order it is enough to compare
each with the next. -/
def checkPaths : List RuleSet → Except ModuleError Unit
  | a :: b :: rest =>
    if a.path.isPrefixOf b.path then .error (.conflictingPaths a.path b.path) else checkPaths (b :: rest)
  | _ => .ok ()

/-- Gathers the rules of modules into a policy. -/
def compile (modules : List Module) : Except ModuleError Policy := do
  let sets ← modules.foldlM (fun sets m => m.rules.foldlM (addRule m.package) sets) []
  checkPaths sets
  .ok ⟨sets⟩

/-- The rule set at a path. -/
def ruleSet? (path : DataPath) (p : Policy) : Option RuleSet := p.ruleSets.find? (·.path == path)

/-- The rule sets whose paths properly extend a path, in order. -/
def below (path : DataPath) (p : Policy) : List RuleSet :=
  ((p.ruleSets.dropWhile fun rs => (compare rs.path path).isLT).takeWhile
    fun rs => path.isPrefixOf rs.path).filter fun rs => path.length < rs.path.length

/-- A rule set has a path that properly extends a path. -/
def hasBelow (path : DataPath) (p : Policy) : Bool :=
  ((p.ruleSets.dropWhile fun rs => (compare rs.path path).isLT).takeWhile
    fun rs => path.isPrefixOf rs.path).any fun rs => path.length < rs.path.length

theorem hasBelow_eq (path : DataPath) (p : Policy) : p.hasBelow path = !(p.below path).isEmpty := by
  rw [hasBelow, below, Bool.eq_iff_iff, List.any_eq_true, Bool.not_eq_true', List.isEmpty_eq_false_iff_exists_mem]
  simp only [List.mem_filter]

/-- The rule set at the longest beginning of a path that has one, looking at beginnings of at most `n` keys. -/
def coveringUpTo (path : DataPath) (p : Policy) : Nat → Option RuleSet
  | 0 => p.ruleSet? []
  | n + 1 => (p.ruleSet? (path.take (n + 1))).orElse fun _ => coveringUpTo path p n

def covering? (path : DataPath) (p : Policy) : Option RuleSet := coveringUpTo path p path.length

/-- Reading the document at a path may evaluate rules. -/
def overlaps (path : DataPath) (p : Policy) : Bool := (p.covering? path).isSome || p.hasBelow path

end Policy
end PolicyEngine
