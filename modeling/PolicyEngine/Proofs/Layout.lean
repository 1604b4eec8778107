import PolicyEngine.Proofs.Compiled

/-!
Where the documents of a compiled policy lie. No rule set lies below another, so a path has rule sets around it, at it
or below it, and never two of these at once. Documents laid over another one at different paths do not disturb each
other: what is found under a key is what was laid below that key.
-/
namespace PolicyEngine

/-! ## Paths in order -/

/-- The paths that extend a path stand together. -/
theorem DataPath.prefix_between {p q r : DataPath} (hpq : compare p q ≠ .gt) (hqr : compare q r ≠ .gt) (hpr : p <+: r) :
    p <+: q := by
  induction p generalizing q r with
  | nil => exact List.nil_prefix
  | cons k p ih =>
    obtain ⟨r, rfl⟩ := hpr
    cases q with
    | nil => exact absurd rfl hpq
    | cons k' q =>
      rw [List.cons_append] at hqr
      rw [List.compare_cons_cons] at hpq hqr
      have hk : k = k' := by
        have hle : compare k k' ≠ .gt := by
          intro h
          rw [h] at hpq
          exact hpq rfl
        have hge : compare k' k ≠ .gt := by
          intro h
          rw [h] at hqr
          exact hqr rfl
        rw [compare_swap k k'] at hge
        refine Std.LawfulEqOrd.eq_of_compare ?_
        cases h : compare k k' with
        | lt =>
          rw [h] at hge
          exact absurd rfl hge
        | eq => rfl
        | gt => exact absurd h hle
      subst hk
      have hself : compare k k = .eq := Std.ReflCmp.compare_self
      rw [hself] at hpq hqr
      exact List.cons_prefix_cons.2 ⟨rfl, ih hpq hqr (List.prefix_append p r)⟩

namespace Policy

/-- No rule set lies below another. -/
def Separate (sets : List RuleSet) : Prop := ∀ rs ∈ sets, ∀ rs' ∈ sets, rs.path <+: rs'.path → rs' = rs

variable {sets : List RuleSet} {policy : Policy} {path : DataPath} {rs rs' : RuleSet}

theorem compare_ne_gt_of_begins {p q : DataPath} (h : p <+: q) : compare p q ≠ .gt := by
  induction p generalizing q with
  | nil => cases q <;> exact nofun
  | cons k p ih =>
    obtain ⟨r, rfl⟩ := h
    have hself : compare k k = .eq := Std.ReflCmp.compare_self
    rw [List.cons_append, List.compare_cons_cons, hself]
    exact ih (List.prefix_append p r)

/-- Of paths in order it is enough to compare each with the next. -/
theorem separate_of_checkPaths (hord : Ordered sets) (h : checkPaths sets = .ok ()) : Separate sets := by
  induction sets with
  | nil => exact nofun
  | cons first rest ih =>
    obtain ⟨hfirst, hrest⟩ := List.pairwise_cons.1 hord
    have hcheck : checkPaths rest = .ok () ∧ ∀ rs ∈ rest, ¬ first.path <+: rs.path := by
      cases rest with
      | nil => exact ⟨rfl, nofun⟩
      | cons second rest =>
        simp only [checkPaths] at h
        split at h
        · cases h
        · next hsecond =>
          refine ⟨h, fun rs hrs hbegins => hsecond ?_⟩
          rw [List.isPrefixOf_iff_prefix]
          refine DataPath.prefix_between (by rw [hfirst second List.mem_cons_self]; exact nofun) ?_ hbegins
          rcases List.mem_cons.1 hrs with rfl | hrs
          · have hself : compare rs.path rs.path = .eq := Std.ReflCmp.compare_self
            rw [hself]
            exact nofun
          · rw [(List.pairwise_cons.1 hrest).1 rs hrs]
            exact nofun
    intro rs hrs rs' hrs' hbegins
    rcases List.mem_cons.1 hrs with rfl | hin <;> rcases List.mem_cons.1 hrs' with rfl | hin'
    · rfl
    · exact (hcheck.2 rs' hin' hbegins).elim
    · -- a path is never before one that begins it
      refine absurd (compare_ne_gt_of_begins hbegins) ?_
      rw [Std.OrientedCmp.gt_of_lt (hfirst rs hin)]
      exact fun h => h rfl
    · exact ih hrest hcheck.1 rs hin rs' hin' hbegins

theorem separate_of_compile {modules : List Module} (h : compile modules = .ok policy) : Separate policy.ruleSets :=
  separate_of_checkPaths (ordered_of_compile h) (compile_iff.1 h).2

/-! ## Rule sets below a path -/

theorem dropWhile_takeWhile_eq_filter (hord : Ordered sets) (path : DataPath) :
    ((sets.dropWhile fun rs => (compare rs.path path).isLT).takeWhile fun rs => path.isPrefixOf rs.path) =
      sets.filter fun rs => path.isPrefixOf rs.path := by
  induction sets with
  | nil => rfl
  | cons first rest ih =>
    obtain ⟨hfirst, hrest⟩ := List.pairwise_cons.1 hord
    rw [List.dropWhile_cons]
    split
    · next hlt =>
      have hnot : ¬ (path.isPrefixOf first.path) = true := by
        rw [List.isPrefixOf_iff_prefix]
        intro hbegins
        refine absurd (compare_ne_gt_of_begins hbegins) ?_
        have hlt : compare first.path path = .lt := by simpa using hlt
        rw [Std.OrientedCmp.gt_of_lt hlt]
        exact fun h => h rfl
      rw [List.filter_cons, if_neg hnot]
      exact ih hrest
    · next hge =>
      have hle : compare path first.path ≠ .gt := by
        rw [compare_swap first.path path]
        cases h : compare first.path path with
        | lt =>
          rw [h] at hge
          exact absurd rfl hge
        | eq => exact nofun
        | gt => exact nofun
      rw [List.takeWhile_cons, List.filter_cons]
      split
      · -- what is left is in order and begins no earlier than the path
        next hbegins =>
        have hstart : ∀ rs ∈ rest, (compare rs.path path).isLT = false := by
          intro rs hrs
          have hle' : compare path rs.path ≠ .gt := by
            intro hgt
            have hlt : compare rs.path path = .lt := Std.OrientedCmp.lt_of_gt hgt
            exact hle (Std.OrientedCmp.gt_of_lt (Std.TransCmp.lt_trans (hfirst rs hrs) hlt))
          rw [compare_swap rs.path path] at hle'
          cases h : compare rs.path path with
          | lt =>
            rw [h] at hle'
            exact absurd rfl hle'
          | eq => rfl
          | gt => rfl
        have hdrop : (rest.dropWhile fun rs => (compare rs.path path).isLT) = rest := by
          cases rest with
          | nil => rfl
          | cons second rest => rw [List.dropWhile_cons, hstart second List.mem_cons_self]; rfl
        rw [← ih hrest, hdrop]
      · next hbegins =>
        refine (List.filter_eq_nil_iff.2 fun rs hrs hin => hbegins ?_).symm
        rw [List.isPrefixOf_iff_prefix] at hin ⊢
        refine DataPath.prefix_between hle ?_ hin
        rw [hfirst rs hrs]
        exact nofun

/-- The rule sets below a path, in order. -/
theorem below_eq_filter (hord : Ordered policy.ruleSets) (path : DataPath) :
    policy.below path = policy.ruleSets.filter fun rs => path.isPrefixOf rs.path && path.length < rs.path.length := by
  rw [below, dropWhile_takeWhile_eq_filter hord, List.filter_filter]
  simp only [Bool.and_comm]

theorem mem_below_iff (hord : Ordered policy.ruleSets) :
    rs ∈ policy.below path ↔ rs ∈ policy.ruleSets ∧ path <+: rs.path ∧ rs.path ≠ path := by
  rw [below_eq_filter hord, List.mem_filter, Bool.and_eq_true, List.isPrefixOf_iff_prefix, decide_eq_true_eq]
  refine and_congr_right fun _ => and_congr_right fun hbegins => ⟨fun hlt heq => ?_, fun hne => ?_⟩
  · rw [heq] at hlt
    exact Nat.lt_irrefl _ hlt
  · have hle := hbegins.length_le
    refine Nat.lt_of_le_of_ne hle fun heq => hne ?_
    exact (hbegins.eq_of_length heq).symm

/-! ## The rule set around a path -/

theorem coveringUpTo_some {n : Nat} (h : policy.coveringUpTo path n = some rs) :
    rs ∈ policy.ruleSets ∧ rs.path <+: path := by
  induction n with
  | zero =>
    have hpath : rs.path = [] := by simpa using List.find?_some h
    exact ⟨List.mem_of_find?_eq_some h, hpath ▸ List.nil_prefix⟩
  | succ n ih =>
    rw [coveringUpTo] at h
    cases hfound : policy.ruleSet? (path.take (n + 1)) with
    | some found =>
      rw [hfound] at h
      cases h
      have hpath : rs.path = path.take (n + 1) := by simpa using List.find?_some hfound
      exact ⟨List.mem_of_find?_eq_some hfound, hpath ▸ List.take_prefix _ _⟩
    | none =>
      rw [hfound] at h
      exact ih h

theorem ruleSet?_isSome (hrs : rs ∈ policy.ruleSets) : (policy.ruleSet? rs.path).isSome = true := by
  rw [ruleSet?, List.find?_isSome]
  exact ⟨rs, hrs, by simp⟩

theorem coveringUpTo_isSome {n : Nat} (hrs : rs ∈ policy.ruleSets) (hbegins : rs.path <+: path)
    (hn : rs.path.length ≤ n) : (policy.coveringUpTo path n).isSome = true := by
  induction n with
  | zero =>
    have hpath : rs.path = [] := List.length_eq_zero_iff.1 (by omega)
    rw [coveringUpTo, ← hpath]
    exact ruleSet?_isSome hrs
  | succ n ih =>
    rw [coveringUpTo]
    by_cases hlength : rs.path.length = n + 1
    · have hpath : path.take (n + 1) = rs.path := by
        rw [← hlength]
        exact (List.prefix_iff_eq_take.1 hbegins).symm
      obtain ⟨found, hfound⟩ := Option.isSome_iff_exists.1 (ruleSet?_isSome hrs)
      rw [hpath, hfound]
      rfl
    · cases policy.ruleSet? (path.take (n + 1)) with
      | some found => rfl
      | none => exact ih (by omega)

/-- The rule set around a path is the only one whose path begins it. -/
theorem covering?_eq_some (hsep : Separate policy.ruleSets) (hrs : rs ∈ policy.ruleSets) (hbegins : rs.path <+: path) :
    policy.covering? path = some rs := by
  obtain ⟨found, hfound⟩ := Option.isSome_iff_exists.1 (coveringUpTo_isSome hrs hbegins hbegins.length_le)
  obtain ⟨hmem, hfoundbegins⟩ := coveringUpTo_some hfound
  rw [covering?, hfound]
  rcases List.prefix_or_prefix_of_prefix hbegins hfoundbegins with h | h
  · rw [hsep rs hrs found hmem h]
  · rw [hsep found hmem rs hrs h]

theorem mem_of_covering? (h : policy.covering? path = some rs) : rs ∈ policy.ruleSets ∧ rs.path <+: path :=
  coveringUpTo_some h

/-- Nothing lies below a path that is within a rule set. -/
theorem below_eq_nil (hord : Ordered policy.ruleSets) (hsep : Separate policy.ruleSets) (hrs : rs ∈ policy.ruleSets)
    (hbegins : rs.path <+: path) : policy.below path = [] := by
  refine List.eq_nil_iff_forall_not_mem.2 fun rs' hrs' => ?_
  obtain ⟨hin, hbelow, hne⟩ := (mem_below_iff hord).1 hrs'
  have hsame := hsep rs hrs rs' hin (hbegins.trans hbelow)
  rw [hsame] at hbelow hne
  exact hne (hbegins.eq_of_length_le hbelow.length_le)

/-- The rule sets below a path that lie at a longer path or below it. -/
theorem filter_below (hord : Ordered policy.ruleSets) (path : DataPath) (key : String) :
    (policy.below path).filter (fun rs => (path ++ [key]).isPrefixOf rs.path) =
      policy.ruleSets.filter fun rs => (path ++ [key]).isPrefixOf rs.path := by
  rw [below_eq_filter hord, List.filter_filter]
  refine List.filter_congr fun rs _ => ?_
  rw [Bool.and_eq_left_iff_imp, List.isPrefixOf_iff_prefix, Bool.and_eq_true, List.isPrefixOf_iff_prefix,
    decide_eq_true_eq]
  intro hbegins
  refine ⟨(List.prefix_append path [key]).trans hbegins, ?_⟩
  have hlength := hbegins.length_le
  rw [List.length_append, List.length_singleton] at hlength
  omega

theorem filter_below_of_covering? (hord : Ordered policy.ruleSets) (hsep : Separate policy.ruleSets)
    (hrs : rs ∈ policy.ruleSets) {key : String} (hpath : rs.path = path ++ [key]) :
    (policy.below path).filter (fun rs => (path ++ [key]).isPrefixOf rs.path) = [rs] := by
  rw [filter_below hord, ← hpath]
  generalize policy.ruleSets = sets at hord hsep hrs
  induction sets with
  | nil => cases hrs
  | cons first rest ih =>
    obtain ⟨hfirst, hrest⟩ := List.pairwise_cons.1 hord
    have hsep' : Separate rest := fun a ha b hb => hsep a (List.mem_cons_of_mem _ ha) b (List.mem_cons_of_mem _ hb)
    rcases List.mem_cons.1 hrs with rfl | hin
    · have hnone : rest.filter (fun rs' => rs.path.isPrefixOf rs'.path) = [] := by
        refine List.filter_eq_nil_iff.2 fun rs' hrs' hbegins => ?_
        rw [List.isPrefixOf_iff_prefix] at hbegins
        have hsame := hsep rs List.mem_cons_self rs' (List.mem_cons_of_mem _ hrs') hbegins
        exact ne_of_compare (hfirst rs' hrs') (by rw [hsame])
      rw [List.filter_cons, if_pos (by simp), hnone]
    · have hother : ¬ (rs.path.isPrefixOf first.path) = true := by
        rw [List.isPrefixOf_iff_prefix]
        intro hbegins
        have hsame := hsep rs hrs first List.mem_cons_self hbegins
        exact ne_of_compare (hfirst rs hin) (by rw [hsame])
      rw [List.filter_cons, if_neg hother]
      exact ih hrest hsep' hin

theorem filter_below_of_none (hord : Ordered policy.ruleSets) (hsep : Separate policy.ruleSets) {key : String}
    (hnone : policy.covering? (path ++ [key]) = none) :
    (policy.below path).filter (fun rs => (path ++ [key]).isPrefixOf rs.path) = policy.below (path ++ [key]) := by
  rw [filter_below hord, below_eq_filter hord]
  refine List.filter_congr fun rs hrs => ?_
  symm
  rw [Bool.and_eq_left_iff_imp, List.isPrefixOf_iff_prefix, decide_eq_true_eq]
  intro hbegins
  refine Nat.lt_of_le_of_ne hbegins.length_le fun hlength => ?_
  have hpath := hbegins.eq_of_length hlength
  rw [covering?_eq_some hsep hrs (hpath ▸ List.prefix_rfl)] at hnone
  cases hnone

/-- A rule set around a longer path that is not around a path is at the longer one. -/
theorem path_of_covering?_append (hsep : Separate policy.ruleSets) (hnone : policy.covering? path = none) {key : String}
    (h : policy.covering? (path ++ [key]) = some rs) : rs.path = path ++ [key] := by
  obtain ⟨hrs, hbegins⟩ := mem_of_covering? h
  rcases List.prefix_concat_iff.1 hbegins with heq | hshort
  · exact heq
  · rw [covering?_eq_some hsep hrs hshort] at hnone
    cases hnone

end Policy

/-! ## Fields -/

namespace Term

theorem cmp_self (t : Term) : t.cmp t = .eq := beq_iff_cmp.1 (beq_refl t)

@[simp] theorem findField?_insertField_self (key value : Term) (fields : List (Term × Term)) :
    findField? key (insertField key value fields) = some value := by
  induction fields with
  | nil => simp only [insertField, findField?, cmp_self]
  | cons field rest ih =>
    obtain ⟨k, v⟩ := field
    rw [insertField]
    cases h : key.cmp k with
    | lt => simp only [findField?, cmp_self]
    | eq => simp only [findField?, h]
    | gt => simp only [findField?, h, ih]

/-- Setting a field leaves the others as they are. -/
theorem findField?_insertField_of_ne {x y : Term} (hne : (x == y) = false) (value : Term) (fields : List (Term × Term)) :
    findField? x (insertField y value fields) = findField? x fields := by
  have hne : x.cmp y ≠ .eq := by
    rw [Ne, ← beq_iff_cmp, hne]
    exact nofun
  induction fields with
  | nil =>
    cases hxy : x.cmp y with
    | lt => simp only [insertField, findField?, hxy]
    | eq => exact absurd hxy hne
    | gt => simp only [insertField, findField?, hxy]
  | cons field rest ih =>
    obtain ⟨k, v⟩ := field
    rw [insertField]
    cases hyk : y.cmp k with
    | lt =>
      cases hxy : x.cmp y with
      | lt => simp only [findField?, hxy, cmp_trans x y k hxy hyk]
      | eq => exact absurd hxy hne
      | gt => simp only [findField?, hxy]
    | eq =>
      rw [← cmp_congr_right (a := x) hyk] at hne
      cases hxk : x.cmp k with
      | lt => simp only [findField?, hxk]
      | eq => exact absurd hxk hne
      | gt => simp only [findField?, hxk]
    | gt => simp only [findField?, ih]

theorem string_bne {x y : String} (h : x ≠ y) : (Term.string x == .string y) = false := by
  rw [Bool.eq_false_iff]
  intro heq
  cases string_beq_iff.1 heq
  exact h rfl

/-! ## Laying documents -/

/-- Lays documents over another one, each at its path; nothing is laid where there is none. -/
def layOver : List (List String × Option Term) → Option Term → Except PathError (Option Term)
  | [], doc => .ok doc
  | (_, none) :: rest, doc => layOver rest doc
  | (path, some value) :: rest, doc =>
    match setPath value (doc.getD emptyObject) path with
    | .ok doc => layOver rest (some doc)
    | .error e => .error e

/-- What is laid below a key. -/
def under (key : String) (entries : List (List String × Option Term)) : List (List String × Option Term) :=
  entries.filterMap fun
    | (k :: path, value) => if k = key then some (path, value) else none
    | ([], _) => none

/-- The object that documents are laid over: nothing else has fields to lay them at. -/
def orEmpty : Option Term → Term
  | some (.object fields) => .object fields
  | _ => emptyObject

variable {entries : List (List String × Option Term)}

/-- Under a key of an object is found what was laid below that key. -/
theorem layOver_under (key : String) (hpaths : ∀ e ∈ entries, e.1 ≠ []) {fields : List (Term × Term)} {doc : Option Term}
    (h : layOver entries (some (.object fields)) = .ok doc) :
    ∃ fields', doc = some (.object fields') ∧
      layOver (under key entries) (findField? (.string key) fields) = .ok (findField? (.string key) fields') := by
  induction entries generalizing fields with
  | nil =>
    cases h
    exact ⟨fields, rfl, rfl⟩
  | cons entry rest ih =>
    rw [List.forall_mem_cons] at hpaths
    obtain ⟨_ | ⟨k, path⟩, _ | value⟩ := entry
    · exact absurd rfl hpaths.1
    · exact absurd rfl hpaths.1
    · obtain ⟨fields', hdoc, hlay⟩ := ih hpaths.2 h
      refine ⟨fields', hdoc, ?_⟩
      by_cases hk : k = key
      · simpa only [under, List.filterMap_cons, if_pos hk, layOver] using hlay
      · simpa only [under, List.filterMap_cons, if_neg hk] using hlay
    · simp only [layOver, Option.getD_some, setPath] at h
      cases hinner : setPath value ((findField? (.string k) fields).getD emptyObject) path with
      | error e =>
        rw [hinner] at h
        cases h
      | ok inner =>
        rw [hinner] at h
        obtain ⟨fields', hdoc, hlay⟩ := ih hpaths.2 h
        refine ⟨fields', hdoc, ?_⟩
        by_cases hk : k = key
        · subst hk
          rw [findField?_insertField_self] at hlay
          simpa only [under, List.filterMap_cons, if_pos, layOver, hinner] using hlay
        · rw [findField?_insertField_of_ne (string_bne (Ne.symm hk))] at hlay
          simpa only [under, List.filterMap_cons, if_neg hk] using hlay

/-- Documents that can be laid below the root of a document can be laid over an object in its place. -/
theorem layOver_orEmpty (hpaths : ∀ e ∈ entries, e.1 ≠ []) {doc doc' : Option Term} (h : layOver entries doc = .ok doc') :
    layOver entries (some (orEmpty doc)) = .ok (some (orEmpty doc')) := by
  induction entries generalizing doc with
  | nil =>
    cases h
    rfl
  | cons entry rest ih =>
    rw [List.forall_mem_cons] at hpaths
    obtain ⟨path, _ | value⟩ := entry
    · exact ih hpaths.2 h
    · obtain ⟨k, path, rfl⟩ := List.exists_cons_of_ne_nil hpaths.1
      -- a write below the root succeeds in an object only
      have hobject : ∃ fields, doc.getD emptyObject = .object fields ∧ orEmpty doc = .object fields := by
        cases doc with
        | none => exact ⟨[], rfl, rfl⟩
        | some t =>
          cases t with
          | object fields => exact ⟨fields, rfl, rfl⟩
          | _ => cases h
      obtain ⟨fields, hget, hempty⟩ := hobject
      simp only [layOver, hget, hempty, Option.getD_some, setPath] at h ⊢
      cases hinner : setPath value ((findField? (.string k) fields).getD emptyObject) path with
      | error e =>
        rw [hinner] at h
        cases h
      | ok inner =>
        rw [hinner] at h
        exact ih hpaths.2 h

end Term
end PolicyEngine
