import PolicyEngine.Proofs.Environments

/-!
Where variables come to an end. Following every variable and putting all values in place end if and only if no variable
depends on itself, and then they lead to what is found in as many steps as there are assignments.
-/
namespace PolicyEngine
namespace Bindings

variable {b : Bindings} {x y : String} {t u : Term} {n : Nat}

/-! ## Following variables -/

theorem followOn?_of_arrived (h : b.Arrived (b.follow n t)) : b.followOn? t = some (b.follow n t) := by
  induction n generalizing t with
  | zero =>
    rw [follow_zero] at h ⊢
    cases t with
    | var x => rw [followOn?, h x rfl]
    | _ => rw [followOn?]; exact fun x hx => by cases hx
  | succ n ih =>
    cases hvar : t.isVar with
    | false =>
      rw [follow_of_not_isVar hvar, followOn?]
      rintro x rfl
      cases hvar
    | true =>
      obtain ⟨x, rfl⟩ := Term.exists_of_isVar hvar
      cases hx : b.lookup x with
      | none => rw [follow_unbound hx, followOn?, hx]
      | some u =>
        rw [follow_bound hx] at h ⊢
        rw [followOn?, hx]
        exact ih h

/-- A variable can be followed to the end if it leads to an unbound variable or to a value. -/
theorem followOn?_eq_some_iff : b.followOn? t = some u ↔ b.Arrived (b.deref t) ∧ b.deref t = u := by
  rw [deref_eq_follow]
  constructor
  · intro h
    obtain ⟨n, rfl, harrived⟩ := follow_of_followOn? h
    have hlength := arrived_follow_length harrived
    refine ⟨hlength, ?_⟩
    rw [← hlength.follow n, ← follow_add, Nat.add_comm, follow_add, harrived.follow]
  · rintro ⟨h, rfl⟩
    exact followOn?_of_arrived h

/-! ## Putting values in place -/

mutual
/-- A term in whose variables values can be put in place to the end is made of these values. -/
theorem plugOn?_of_vars {f : String → Term} : ∀ t : Term, (∀ x ∈ t.vars, b.plugOn? (.var x) = some (f x)) →
    b.plugOn? t = some (t.substitute f)
  | .var x, h => h x (List.mem_singleton_self x)
  | .array items, h => by
    rw [plugOn?, mapM_plugOn?_of_vars items h]
    rfl
  | .object fields, h => by
    rw [plugOn?, Term.substitute]
    split
    · rfl
    · rw [mapM_plugOn?_of_fieldsVars fields h]
      rfl
  | .set members, h => by
    rw [plugOn?, Term.substitute]
    split
    · rfl
    · rw [mapM_plugOn?_of_vars members h]
      rfl
  | .ref head operands, h => by
    rw [plugOn?, plugOn?_of_vars head fun x hx => h x (List.mem_append_left _ hx),
      mapM_plugOn?_of_vars operands fun x hx => h x (List.mem_append_right _ hx)]
    rfl
  | .call operator arguments, h => by
    rw [plugOn?, plugOn?_of_vars operator fun x hx => h x (List.mem_append_left _ hx),
      mapM_plugOn?_of_vars arguments fun x hx => h x (List.mem_append_right _ hx)]
    rfl
  | .null, _ | .bool _, _ | .number _, _ | .string _, _ => by rw [plugOn?.eq_def]; rfl
  | .arrayCompr _ _, _ | .setCompr _ _, _ | .objectCompr _ _ _, _ => by rw [plugOn?.eq_def]; rfl
theorem mapM_plugOn?_of_vars {f : String → Term} : ∀ ts : List Term,
    (∀ x ∈ Term.listVars ts, b.plugOn? (.var x) = some (f x)) →
      ts.mapM b.plugOn? = some (Term.substituteList f ts)
  | [], _ => rfl
  | t :: rest, h => by
    rw [List.mapM_cons, plugOn?_of_vars t fun x hx => h x (List.mem_append_left _ hx),
      mapM_plugOn?_of_vars rest fun x hx => h x (List.mem_append_right _ hx)]
    rfl
theorem mapM_plugOn?_of_fieldsVars {f : String → Term} : ∀ fs : List (Term × Term),
    (∀ x ∈ Term.fieldsVars fs, b.plugOn? (.var x) = some (f x)) →
      (fs.mapM fun (k, v) => do return (← b.plugOn? k, ← b.plugOn? v)) = some (Term.substituteFields f fs)
  | [], _ => rfl
  | (k, v) :: rest, h => by
    rw [List.mapM_cons, mapM_plugOn?_of_fieldsVars rest fun x hx => h x (List.mem_append_right _ hx)]
    simp only [plugOn?_of_vars k fun x hx => h x (List.mem_append_left _ (List.mem_append_left _ hx)),
      plugOn?_of_vars v fun x hx => h x (List.mem_append_left _ (List.mem_append_right _ hx))]
    rfl
end

/-- What stands in the place of a variable, with values in place to a number of levels. -/
def standIn (b : Bindings) (n : Nat) (x : String) : Term :=
  match b.deref (.var x) with
  | .var unbound => .var unbound
  | value => b.plugTo n value

theorem plugTo_succ (n : Nat) (t : Term) : b.plugTo (n + 1) t = t.substitute (b.standIn n) := by
  rw [plugTo]
  split
  · next hground => rw [Term.substitute_of_isGround t hground]
  · rfl

theorem plugOn?_var_of_isVar (h : (b.deref (.var x)).isVar = true) (n : Nat) :
    b.plugOn? (.var x) = some (b.standIn n x) := by
  obtain ⟨y, hy⟩ := Term.exists_of_isVar h
  simp only [plugOn?, standIn, hy]

theorem plugOn?_var_of_not_isVar (h : (b.deref (.var x)).isVar = false) :
    b.plugOn? (.var x) = b.plugOn? (b.deref (.var x)) ∧ b.standIn n x = b.plugTo n (b.deref (.var x)) := by
  cases hvalue : b.deref (.var x) with
  | var y =>
    rw [hvalue] at h
    cases h
  | _ => exact ⟨by simp only [plugOn?, hvalue], by simp only [standIn, hvalue]⟩

/-- Values that end at some level can be put in place to the end. -/
theorem plugOn?_of_endsAt (h : b.endsAt n t = true) : b.plugOn? t = some (b.plugTo (n + 1) t) := by
  induction n generalizing t with
  | zero =>
    rw [plugTo_succ]
    refine plugOn?_of_vars t fun x hx => plugOn?_var_of_isVar ?_ 0
    rw [deref_unbound (Option.isNone_iff_eq_none.1 (List.all_eq_true.1 h x hx))]
    rfl
  | succ n ih =>
    rw [plugTo_succ]
    refine plugOn?_of_vars t fun x hx => ?_
    have hx := endsAt_iff.1 h x hx
    cases hvar : (b.deref (.var x)).isVar with
    | true => exact plugOn?_var_of_isVar hvar (n + 1)
    | false =>
      rw [endsAt_var_of_not_isVar hvar] at hx
      obtain ⟨hplug, hstandIn⟩ := @plugOn?_var_of_not_isVar b x (n + 1) hvar
      rw [hplug, hstandIn, ih hx]

/-- Putting values in place comes to an end if the values end at no more levels than there are assignments. -/
theorem plugOn?_eq_some_iff : b.plugOn? t = some u ↔
    b.endsAt b.assignments.length t = true ∧ b.plugTo (b.assignments.length + 1) t = u := by
  constructor
  · intro h
    obtain ⟨n, hn⟩ := exists_endsAt_of_plugOn? h
    have hlength := endsAt_length hn
    rw [plugOn?_of_endsAt hlength] at h
    exact ⟨hlength, Option.some.inj h⟩
  · rintro ⟨h, rfl⟩
    exact plugOn?_of_endsAt h

/-! ## Circles -/

theorem Levels.endsAt {level : String → Nat} (hl : b.Levels level) (hb : b.Acyclic)
    (h : t.VarsIn fun x => level x ≤ n) : b.endsAt n t = true := by
  induction n generalizing t with
  | zero =>
    refine List.all_eq_true.2 fun x hx => Option.isNone_iff_eq_none.2 ?_
    cases hlookup : b.lookup x with
    | none => rfl
    | some u => exact absurd (h x hx) (hl.pos hlookup).not_ge
  | succ n ih =>
    refine endsAt_iff.2 fun x hx => ?_
    cases hvar : (b.deref (.var x)).isVar with
    | true => exact endsAt_var_of_isVar hvar
    | false =>
      rw [endsAt_var_of_not_isVar hvar]
      exact ih fun y hy => Nat.le_of_lt_succ (hl.deref hb hvar (h x hx) y hy)

/-- Where no variable depends on itself, each can be followed to the end, and all values can be put in place. -/
theorem Acyclic.ends (hb : b.Acyclic) (t : Term) :
    b.followOn? t = some (b.deref t) ∧ b.endsAt b.assignments.length t = true := by
  obtain ⟨level, hl⟩ := hb.exists_levels
  exact ⟨followOn?_eq_some_iff.2 ⟨fun x => hb.lookup_of_deref, rfl⟩, hl.endsAt hb fun x _ => hl.le_length x⟩

theorem endsAt_var_congr (h : b.deref (.var x) = b.deref (.var y)) :
    b.endsAt (n + 1) (.var x) = b.endsAt (n + 1) (.var y) := by
  simp only [endsAt, Term.vars, List.all_cons, List.all_nil, h]

theorem deref_of_lookup (hends : (b.followOn? (.var x)).isSome = true) (h : b.lookup x = some t) :
    b.deref (.var x) = b.deref t := by
  obtain ⟨u, hu⟩ := Option.isSome_iff_exists.1 hends
  have ht : b.followOn? t = some u := by rwa [followOn?, h] at hu
  rw [(followOn?_eq_some_iff.1 hu).2, (followOn?_eq_some_iff.1 ht).2]

/-- Each variable can be followed to the end, and all values below it can be put in place, exactly if no variable depends
on itself. -/
theorem acyclic_iff_ends :
    b.Acyclic ↔ ∀ x, (b.followOn? (.var x)).isSome = true ∧ (b.plugOn? (.var x)).isSome = true := by
  constructor
  · intro hb x
    obtain ⟨hfollow, hends⟩ := hb.ends (.var x)
    exact ⟨hfollow ▸ rfl, plugOn?_of_endsAt hends ▸ rfl⟩
  intro hends
  have hway : ∀ x, ∃ n, b.Arrived (b.follow n (.var x)) := by
    intro x
    obtain ⟨u, hu⟩ := Option.isSome_iff_exists.1 (hends x).1
    obtain ⟨n, hn, harrived⟩ := follow_of_followOn? hu
    exact ⟨n, hn ▸ harrived⟩
  have hlevel : ∀ x, ∃ n, b.endsAt n (.var x) = true := by
    intro x
    obtain ⟨u, hu⟩ := Option.isSome_iff_exists.1 (hends x).2
    exact exists_endsAt_of_plugOn? hu
  classical
  -- to the value of a variable a level is left; to another variable the level is kept and the way gets shorter
  refine acyclic_of_rank (fun x => Nat.find (hlevel x) * (b.assignments.length + 1) + Nat.find (hway x)) ?_
  rintro x y ⟨t, hx, hy⟩
  have hspec := Nat.find_spec (hlevel x)
  obtain ⟨m, hm⟩ : ∃ m, Nat.find (hlevel x) = m + 1 := by
    refine Nat.exists_eq_succ_of_ne_zero fun hzero => ?_
    simp [hzero, endsAt, Term.vars, hx] at hspec
  rw [hm] at hspec ⊢
  cases hvar : t.isVar with
  | false =>
    have hderef : b.deref (.var x) = t := (deref_of_lookup (hends x).1 hx).trans (deref_of_not_isVar hvar)
    rw [endsAt_var_of_not_isVar (hderef ▸ hvar), hderef] at hspec
    have hlevels : Nat.find (hlevel y) ≤ m := Nat.find_min' _ (endsAt_iff.1 hspec y hy)
    have hways : Nat.find (hway y) ≤ b.assignments.length :=
      Nat.find_min' _ (stepwise_follow.within (Nat.find_spec (hway y)))
    calc Nat.find (hlevel y) * (b.assignments.length + 1) + Nat.find (hway y)
      _ ≤ m * (b.assignments.length + 1) + b.assignments.length :=
        Nat.add_le_add (Nat.mul_le_mul_right _ hlevels) hways
      _ < (m + 1) * (b.assignments.length + 1) := by rw [Nat.succ_mul]; omega
      _ ≤ (m + 1) * (b.assignments.length + 1) + Nat.find (hway x) := Nat.le_add_right _ _
  | true =>
    obtain ⟨z, rfl⟩ := Term.exists_of_isVar hvar
    obtain rfl := List.mem_singleton.1 hy
    have hlevels : Nat.find (hlevel y) ≤ m + 1 := by
      refine Nat.find_min' _ ?_
      rwa [← endsAt_var_congr (deref_of_lookup (hends x).1 hx)]
    have hways : Nat.find (hway y) < Nat.find (hway x) := by
      have hspec := Nat.find_spec (hway x)
      obtain ⟨k, hk⟩ : ∃ k, Nat.find (hway x) = k + 1 := by
        refine Nat.exists_eq_succ_of_ne_zero fun hzero => ?_
        rw [hzero, follow_zero] at hspec
        cases (hspec x rfl).symm.trans hx
      rw [hk, follow_bound hx] at hspec
      exact hk ▸ Nat.lt_succ_of_le (Nat.find_min' _ hspec)
    exact Nat.add_lt_add_of_le_of_lt (Nat.mul_le_mul_right _ hlevels) hways

end Bindings
end PolicyEngine
