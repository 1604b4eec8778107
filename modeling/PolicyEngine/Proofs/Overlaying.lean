import PolicyEngine.Proofs.Reading

/-!
Overrides of data as writes. A document under overrides is not read from a patched copy of the data: the last override
around its path gives it, earlier ones are passed over, and of the later ones those below the path are laid over it. It
comes to the same as writing the overrides into the data one after the other and looking the path up.
-/
namespace PolicyEngine

namespace Term

/-! ## Looking up after a write -/

theorem lookupKeys_emptyObject {path : DataPath} (h : path ≠ []) : emptyObject.lookupKeys path = none := by
  obtain ⟨key, rest, rfl⟩ := List.exists_cons_of_ne_nil h
  rfl

/-- Where there is no document, nothing is found below it and an empty object is filled in at it. -/
theorem getD_lookupKeys_getD (doc : Option Term) (path : DataPath) :
    ((doc.getD emptyObject).lookupKeys path).getD emptyObject = (doc.bind (lookupKeys · path)).getD emptyObject := by
  cases doc with
  | some t => rfl
  | none => cases path <;> rfl

/-- A write below the root writes into the field of the first key. -/
theorem setPath_cons_eq_ok {value t t' : Term} {key : String} {rest : DataPath}
    (h : setPath value t (key :: rest) = .ok t') :
    ∃ fields inner, t = .object fields ∧
      setPath value ((findField? (.string key) fields).getD emptyObject) rest = .ok inner ∧
      t' = .object (insertField (.string key) inner fields) := by
  cases t with
  | object fields =>
    rw [setPath] at h
    cases hinner : setPath value ((findField? (.string key) fields).getD emptyObject) rest with
    | error e =>
      rw [hinner] at h
      cases h
    | ok inner =>
      rw [hinner] at h
      cases h
      exact ⟨fields, inner, rfl, hinner, rfl⟩
  | _ => cases h

variable {value t t' : Term} {path target rest : DataPath}

/-- At and below the path of a write stands what was written. -/
theorem lookupKeys_setPath_within (h : setPath value t target = .ok t') :
    t'.lookupKeys (target ++ rest) = value.lookupKeys rest := by
  induction target generalizing t t' with
  | nil =>
    cases h
    rfl
  | cons key target ih =>
    obtain ⟨fields, inner, rfl, hinner, rfl⟩ := setPath_cons_eq_ok h
    simp only [List.cons_append, lookupKeys, lookup, findField?_insertField_self, Option.bind_some]
    exact ih hinner

/-- Above the path of a write stands what was there, with the value written into it. -/
theorem lookupKeys_setPath_above (h : setPath value t (path ++ rest) = .ok t') :
    ∃ inner, setPath value ((t.lookupKeys path).getD emptyObject) rest = .ok inner ∧
      t'.lookupKeys path = some inner := by
  induction path generalizing t t' with
  | nil => exact ⟨t', h, rfl⟩
  | cons key path ih =>
    obtain ⟨fields, inner, rfl, hinner, rfl⟩ := setPath_cons_eq_ok h
    obtain ⟨written, hset, hlookup⟩ := ih hinner
    rw [getD_lookupKeys_getD] at hset
    refine ⟨written, hset, ?_⟩
    simp only [lookupKeys, lookup, findField?_insertField_self, Option.bind_some]
    exact hlookup

/-- A write leaves what is apart from its path. -/
theorem lookupKeys_setPath_apart (h : setPath value t target = .ok t') (hwithin : ¬ target <+: path)
    (habove : ¬ path <+: target) : t'.lookupKeys path = t.lookupKeys path := by
  induction target generalizing t t' path with
  | nil => exact absurd List.nil_prefix hwithin
  | cons key target ih =>
    cases path with
    | nil => exact absurd List.nil_prefix habove
    | cons first path =>
      obtain ⟨fields, inner, rfl, hinner, rfl⟩ := setPath_cons_eq_ok h
      simp only [lookupKeys, lookup]
      by_cases hkey : first = key
      · subst hkey
        rw [List.cons_prefix_cons] at hwithin habove
        have hpath : path ≠ [] := by
          rintro rfl
          exact habove ⟨rfl, List.nil_prefix⟩
        rw [findField?_insertField_self, Option.bind_some,
          ih hinner (fun hp => hwithin ⟨rfl, hp⟩) fun hp => habove ⟨rfl, hp⟩]
        cases findField? (.string first) fields with
        | none => exact lookupKeys_emptyObject hpath
        | some t => rfl
      · rw [findField?_insertField_of_ne (string_bne hkey)]

/-! ## Trees -/

mutual
/-- A term of objects with string keys and of scalars. -/
def isTree : Term → Bool
  | .null | .bool _ | .number _ | .string _ => true
  | .object fields => areTrees fields
  | _ => false
def areTrees : List (Term × Term) → Bool
  | [] => true
  | (.string _, v) :: rest => v.isTree && areTrees rest
  | _ :: _ => false
end

theorem isTree_of_findField? {fields : List (Term × Term)} (h : areTrees fields = true) {key v : Term}
    (hfind : findField? key fields = some v) : v.isTree = true := by
  induction fields with
  | nil => cases hfind
  | cons field rest ih =>
    obtain ⟨k, w⟩ := field
    cases k with
    | string s =>
      rw [areTrees, Bool.and_eq_true] at h
      rw [findField?] at hfind
      split at hfind
      · cases hfind
      · cases hfind
        exact h.1
      · exact ih h.2 hfind
    | _ => cases h

/-- In a tree the store finds what a look-up finds: it has no arrays to address and no members. -/
theorem at?_eq_lookupKeys (h : t.isTree = true) (path : DataPath) : t.at? (StorePath.ofKeys path) = t.lookupKeys path := by
  induction path generalizing t with
  | nil => rfl
  | cons key path ih =>
    cases t with
    | object fields =>
      rw [isTree] at h
      show (findField? (.string key) fields).bind (at? · (StorePath.ofKeys path)) = _
      rw [lookupKeys, lookup]
      cases hfind : findField? (.string key) fields with
      | none => rfl
      | some v => exact ih (isTree_of_findField? h hfind)
    | null | bool | number | string => rfl
    | _ => cases h

end Term

/-! ## Writes in order -/

/-- The document with values written at paths, in order. -/
def Term.writeAll (t : Term) (overrides : List (DataPath × Term)) : Except Term.PathError Term :=
  overrides.foldlM (fun doc o => Term.setPath o.2 doc o.1) t

namespace Scope

/-- The documents that overrides give below a path, each at its path from there. -/
def laidBelow (path : DataPath) (overrides : List (DataPath × Term)) : List (List String × Option Term) :=
  (below path overrides).map fun o => (o.1.drop path.length, some o.2)

/-- The document at a path under overrides, of the one that is there without them. -/
def overlay (path : DataPath) (overrides : List (DataPath × Term)) (base : Option Term) :
    Except Term.PathError (Option Term) :=
  match covering? path overrides with
  | some (doc, later) => Term.layOver (laidBelow path later) doc
  | none => Term.layOver (laidBelow path overrides) base

/-- The document at a path after a write, of the one that was there before. -/
def written (target : DataPath) (value : Term) (path : DataPath) (base : Option Term) :
    Except Term.PathError (Option Term) :=
  if target <+: path then .ok (value.lookupKeys (path.drop target.length))
  else if path <+: target then (Term.setPath value (base.getD Term.emptyObject) (target.drop path.length)).map some
  else .ok base

variable {path target rest : DataPath} {value root doc : Term} {base base' found : Option Term}
  {overrides : List (DataPath × Term)}

/-- What is below a path and what is not, of overrides with one more in front. -/
theorem laidBelow_cons (path target : DataPath) (value : Term) (overrides : List (DataPath × Term)) :
    laidBelow path ((target, value) :: overrides) =
      if path <+: target ∧ target ≠ path then (target.drop path.length, some value) :: laidBelow path overrides
      else laidBelow path overrides := by
  have hiff : (decide (path.length < target.length) && path.isPrefixOf target) = true ↔
      path <+: target ∧ target ≠ path := by
    rw [Bool.and_eq_true, decide_eq_true_eq, List.isPrefixOf_iff_prefix, and_comm]
    refine and_congr_right fun hbegins => ⟨fun hlt heq => ?_, fun hne => ?_⟩
    · exact absurd (congrArg List.length heq) (Nat.ne_of_gt hlt)
    · exact Nat.lt_of_le_of_ne hbegins.length_le fun hlength => hne (hbegins.eq_of_length hlength).symm
  rw [laidBelow, below, List.filter_cons]
  simp only [hiff]
  split <;> rfl

/-- An override around a path hides those before it. -/
theorem overlay_covered (h : (covering? path overrides).isSome) (first : DataPath × Term) (base base' : Option Term) :
    overlay path (first :: overrides) base = overlay path overrides base' := by
  obtain ⟨found, hfound⟩ := Option.isSome_iff_exists.1 h
  simp only [overlay, covering?, hfound]

/-- The first override can be written into the document instead. -/
theorem overlay_uncovered (h : covering? path overrides = none) (target : DataPath) (value : Term)
    (base : Option Term) :
    overlay path ((target, value) :: overrides) base = written target value path base >>= overlay path overrides := by
  have hoverlay : ∀ base, overlay path overrides base = Term.layOver (laidBelow path overrides) base := fun base => by
    simp only [overlay, h]
  rw [overlay, covering?, h, written]
  by_cases hwithin : target <+: path
  · simp only [List.isPrefixOf_iff_prefix, if_pos hwithin]
    exact (hoverlay _).symm
  simp only [List.isPrefixOf_iff_prefix, if_neg hwithin, laidBelow_cons]
  by_cases habove : path <+: target
  · have hne : target ≠ path := fun heq => hwithin (heq ▸ List.prefix_refl _)
    rw [if_pos ⟨habove, hne⟩, if_pos habove, Term.layOver]
    cases Term.setPath value (base.getD Term.emptyObject) (target.drop path.length) with
    | error e => rfl
    | ok inner => exact (hoverlay _).symm
  · rw [if_neg fun hboth => habove hboth.1, if_neg habove]
    exact (hoverlay _).symm

theorem overlay_cons (h : written target value path base = .ok base') (overrides : List (DataPath × Term)) :
    overlay path ((target, value) :: overrides) base = overlay path overrides base' := by
  cases hcovering : covering? path overrides with
  | none =>
    rw [overlay_uncovered hcovering, h]
    rfl
  | some found => exact overlay_covered (by rw [hcovering]; rfl) _ _ _

/-- Below a path a write makes of the part there a part of what it makes of the whole. -/
theorem written_below (h : written target value path base = .ok base') (rest : DataPath) :
    written target value (path ++ rest) (base.bind (·.lookupKeys rest)) = .ok (base'.bind (·.lookupKeys rest)) := by
  rw [written] at h
  split at h
  · next hwithin =>
    obtain ⟨later, rfl⟩ := hwithin
    cases h
    rw [written, List.append_assoc, if_pos (List.prefix_append target _), List.drop_left, List.drop_left,
      Term.lookupKeys_append]
  next hwithin =>
  split at h
  · next habove =>
    obtain ⟨later, rfl⟩ := habove
    rw [List.drop_left] at h
    cases hset : Term.setPath value (base.getD Term.emptyObject) later with
    | error e =>
      rw [hset] at h
      cases h
    | ok inner =>
      rw [hset] at h
      cases h
      simp only [written, List.prefix_append_right_inj, List.length_append, List.drop_length_add_append, Option.bind_some]
      by_cases hlater : later <+: rest
      · obtain ⟨rest, rfl⟩ := hlater
        rw [if_pos (List.prefix_append later _), List.drop_left, Term.lookupKeys_setPath_within hset]
      rw [if_neg hlater]
      by_cases hrest : rest <+: later
      · obtain ⟨last, rfl⟩ := hrest
        obtain ⟨written, hwritten, hlookup⟩ := Term.lookupKeys_setPath_above hset
        rw [Term.getD_lookupKeys_getD] at hwritten
        rw [if_pos (List.prefix_append rest _), List.drop_left, hwritten, hlookup]
        rfl
      · rw [if_neg hrest, Term.lookupKeys_setPath_apart hset hlater hrest]
        cases base with
        | some t => rfl
        | none =>
          have hne : rest ≠ [] := by
            rintro rfl
            exact hrest List.nil_prefix
          rw [Option.getD_none, Term.lookupKeys_emptyObject hne]
          rfl
  · next habove =>
    cases h
    rw [written, if_neg, if_neg fun hbelow => habove ((List.prefix_append path rest).trans hbelow)]
    exact fun hwithin' => (List.prefix_or_prefix_of_prefix hwithin' (List.prefix_append path rest)).elim hwithin habove

theorem covering?_append (h : (covering? path overrides).isSome) (rest : DataPath) :
    (covering? (path ++ rest) overrides).isSome := by
  induction overrides with
  | nil => cases h
  | cons first later ih =>
    rw [covering?] at h ⊢
    cases hlater : covering? (path ++ rest) later with
    | some found => rfl
    | none =>
      have hnone : covering? path later = none := by
        cases hfound : covering? path later with
        | none => rfl
        | some found =>
          have hsome := ih (by rw [hfound]; rfl)
          rw [hlater] at hsome
          cases hsome
      simp only [hnone, List.isPrefixOf_iff_prefix] at h ⊢
      split at h
      · next hwithin =>
        rw [if_pos (hwithin.trans (List.prefix_append path rest))]
        rfl
      · cases h

/-- What stands below a path under overrides is a part of what stands at the path. -/
theorem overlay_below (h : overlay path overrides base = .ok found) (rest : DataPath) :
    overlay (path ++ rest) overrides (base.bind (·.lookupKeys rest)) = .ok (found.bind (·.lookupKeys rest)) := by
  induction overrides generalizing base with
  | nil =>
    cases h
    rfl
  | cons first later ih =>
    obtain ⟨target, value⟩ := first
    cases hcovering : covering? path later with
    | some covered =>
      have hsome : (covering? path later).isSome := by rw [hcovering]; rfl
      rw [overlay_covered hsome _ _ base] at h
      rw [overlay_covered (covering?_append hsome rest)]
      exact ih h
    | none =>
      rw [overlay_uncovered hcovering] at h
      cases hwritten : written target value path base with
      | error e =>
        rw [hwritten] at h
        cases h
      | ok base' =>
        rw [hwritten] at h
        rw [overlay_cons (written_below hwritten rest)]
        exact ih h

/-- Reading under overrides is looking up in the document with all of them written. -/
theorem overlay_of_writeAll (h : root.writeAll overrides = .ok doc) (path : DataPath) :
    overlay path overrides (root.lookupKeys path) = .ok (doc.lookupKeys path) := by
  have hwhole : overlay [] overrides (some root) = .ok (some doc) := by
    induction overrides generalizing root with
    | nil =>
      cases h
      rfl
    | cons first rest ih =>
      obtain ⟨target, value⟩ := first
      rw [Term.writeAll, List.foldlM_cons] at h
      cases hset : Term.setPath value root target with
      | error e =>
        rw [hset] at h
        cases h
      | ok root' =>
        rw [hset] at h
        have hwritten : written target value [] (some root) = .ok (some root') := by
          cases target with
          | nil =>
            cases hset
            rfl
          | cons key target =>
            simp [written, hset, Except.map]
        rw [overlay_cons hwritten]
        exact ih h
  exact overlay_below hwhole path

end Scope

namespace Env

variable {env : Env} {overrides : List (DataPath × Term)} {doc : Term} {s : State}

/-- Overrides are laid in order. -/
theorem run_layOverrides (path : DataPath) (overrides : List (DataPath × Term)) (base : Option Term) (s : State) :
    (layOverrides path overrides base).run s =
      ((Term.layOver (overrides.map fun o => (o.1.drop path.length, some o.2)) base).mapError
        fun e => .internal (.unsettable e), s) := by
  induction overrides generalizing base with
  | nil => rfl
  | cons first rest ih =>
    obtain ⟨target, value⟩ := first
    simp only [layOverrides, Eval.run_bind, run_setIn, List.map_cons, Term.layOver]
    cases Term.setPath value (base.getD Term.emptyObject) (target.drop path.length) with
    | error e => rfl
    | ok doc => exact ih _

/-- A document with which no rules have to do is read from the store under the overrides. -/
theorem run_document_overlaid (rules : RuleSemantics) (hfailing : env.failing = []) {path : DataPath}
    (hcovering : env.policy.covering? path = none) (hbelow : env.policy.below path = []) (s : State) :
    ∃ s', s.Quiet s' ∧ (env.document rules path).run s =
      ((Scope.overlay path s.scope.data (env.root.at? (StorePath.ofKeys path))).mapError
        fun e => .internal (.unsettable e), s') := by
  simp only [document, Eval.run_bind, Eval.run_get, Scope.overlay]
  cases Scope.covering? path s.scope.data with
  | some found => exact ⟨s, .refl s, by simp only [run_layOverrides, Scope.laidBelow]⟩
  | none =>
    refine ⟨_, quiet_reading path s, ?_⟩
    simp only [Eval.run_bind, env.run_baseDocument_stored rules hfailing hcovering hbelow, run_layOverrides,
      Scope.laidBelow]

/-- Without rules, a document under overrides is what stands at its path when the overrides have been written into the
base documents one after the other. -/
theorem document_of_writeAll (hrules : env.policy.ruleSets = []) (hfailing : env.failing = [])
    (htree : env.root.isTree = true) (hwrite : env.root.writeAll s.scope.data = .ok doc) (rules : RuleSemantics)
    (path : DataPath) : ((env.document rules path).run s).1 = .ok (doc.lookupKeys path) := by
  have hcovering : env.policy.covering? path = none := by
    cases hfound : env.policy.covering? path with
    | none => rfl
    | some rs =>
      have hmem := (Policy.mem_of_covering? hfound).1
      rw [hrules] at hmem
      cases hmem
  have hbelow : env.policy.below path = [] := by
    rw [Policy.below, hrules]
    rfl
  obtain ⟨s', _, hrun⟩ := run_document_overlaid rules hfailing hcovering hbelow s
  rw [hrun, Term.at?_eq_lookupKeys htree, Scope.overlay_of_writeAll hwrite]
  rfl

end Env

/-! ### Roles written over roles -/

namespace Roster

def role (name : String) (value : String) : Term × Term := (.string name, .string value)

def env : Env := { root := .object [(.string "roles", .object [role "alice" "admin", role "bob" "dev"])] }

/-- A document that is written below afterwards, one that is replaced as a whole with what was written below it, one in
a place where nothing was, and one that is written twice. -/
def overrides : List (DataPath × Term) :=
  [(["roles", "bob"], .string "ops"), (["teams", "red", "lead"], .string "bob"), (["teams", "red"], .object []),
    (["teams"], .object [role "blue" "open"]), (["roles", "carol"], .string "dev"), (["roles", "carol"], .string "ops")]

def written : Term := (env.root.writeAll overrides).toOption.getD Term.emptyObject

theorem writeAll_overrides : env.root.writeAll overrides = .ok written :=
  Except.eq_ok_of_isOk (by decide +kernel) Term.emptyObject

def start : State := { scope := { data := overrides, id := 1 }, lastScope := 1, clock := { step := 1 } }

theorem document_roster :
    env.root.isTree = true ∧ env.root.writeAll overrides = .ok written ∧
      (written == .object [(.string "roles", .object [role "alice" "admin", role "bob" "ops", role "carol" "ops"]),
        (.string "teams", .object [role "blue" "open"])]) = true ∧
      ∀ path, ((env.document env.rules path).run start).1 = .ok (written.lookupKeys path) :=
  ⟨by decide +kernel, writeAll_overrides, by decide +kernel,
    fun path => Env.document_of_writeAll rfl rfl (by decide +kernel) writeAll_overrides env.rules path⟩

end Roster
end PolicyEngine
