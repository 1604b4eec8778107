import PolicyEngine.Proofs.Collections
import PolicyEngine.Proofs.Variables

/-!
Substitution up to the equality of the language. Equal terms agree in size and variables, and stay equal under every
substitution. Where the keys of objects are ground, substitutions compose, and the variables of an instance are those of
the terms put in place.
-/
namespace PolicyEngine
namespace Term

/-! ## Equal terms -/

theorem Same.refl (t : Term) : Same t t := beq_refl t

theorem Same.symm {a b : Term} (h : Same a b) : Same b a := beq_symm h

theorem Same.trans {a b c : Term} (h : Same a b) (h' : Same b c) : Same a c := beq_trans h h'

theorem same_iff_cmp {a b : Term} : Same a b ↔ a.cmp b = .eq := beq_iff_cmp

theorem Same.rank_eq {a b : Term} (h : Same a b) : a.rank = b.rank := rank_eq_of_cmp (same_iff_cmp.1 h)

theorem cmpList_eq_iff_forall₂ {xs ys : List Term} : cmpList xs ys = .eq ↔ List.Forall₂ Same xs ys := by
  induction xs generalizing ys with
  | nil => cases ys <;> simp [cmpList]
  | cons x xs ih =>
    cases ys with
    | nil => simp [cmpList]
    | cons y ys => rw [cmpList, Ordering.then_eq_eq, ih, List.forall₂_cons, same_iff_cmp]

theorem cmpFields_eq_iff_forall₂ {fs gs : List (Term × Term)} :
    cmpFields fs gs = .eq ↔ List.Forall₂ SameField fs gs := by
  induction fs generalizing gs with
  | nil => cases gs <;> simp [cmpFields]
  | cons f fs ih =>
    cases gs with
    | nil => simp [cmpFields]
    | cons g gs =>
      rw [cmpFields, Ordering.then_eq_eq, Ordering.then_eq_eq, ih, List.forall₂_cons, SameField, beq_iff_cmp,
        beq_iff_cmp]

section Parts

variable {xs ys : List Term} {fs gs : List (Term × Term)} {a b : Term} {x y : String}

@[simp] theorem same_array : Same (.array xs) (.array ys) ↔ List.Forall₂ Same xs ys := by
  rw [same_iff_cmp, Term.cmp, cmpList_eq_iff_forall₂]

@[simp] theorem same_set : Same (.set xs) (.set ys) ↔ List.Forall₂ Same xs ys := by
  rw [same_iff_cmp, Term.cmp, cmpList_eq_iff_forall₂]

@[simp] theorem same_object : Same (.object fs) (.object gs) ↔ List.Forall₂ SameField fs gs := by
  rw [same_iff_cmp, Term.cmp, cmpFields_eq_iff_forall₂]

@[simp] theorem same_var : Same (.var x) (.var y) ↔ x = y := by
  rw [same_iff_cmp, Term.cmp, Std.LawfulEqOrd.compare_eq_iff_eq]

@[simp] theorem same_ref : Same (.ref a xs) (.ref b ys) ↔ Same a b ∧ List.Forall₂ Same xs ys := by
  rw [same_iff_cmp, Term.cmp, Ordering.then_eq_eq, cmpList_eq_iff_forall₂, same_iff_cmp]

@[simp] theorem same_call : Same (.call a xs) (.call b ys) ↔ Same a b ∧ List.Forall₂ Same xs ys := by
  rw [same_iff_cmp, Term.cmp, Ordering.then_eq_eq, cmpList_eq_iff_forall₂, same_iff_cmp]

end Parts

/-- A scalar or a comprehension, which substitution does not look into. -/
def isAtom : Term → Bool
  | .array _ | .object _ | .set _ | .var _ | .ref _ _ | .call _ _ => false
  | _ => true

/-- A relation that holds of equal atoms and of equal variables, and of other equal terms if it holds of their parts. -/
structure Congruent (P : Term → Term → Prop) : Prop where
  atom : ∀ {a b}, a.isAtom = true → b.isAtom = true → Same a b → P a b
  var : ∀ x, P (.var x) (.var x)
  array : ∀ {xs ys}, List.Forall₂ (fun x y => Same x y ∧ P x y) xs ys → P (.array xs) (.array ys)
  set : ∀ {xs ys}, List.Forall₂ (fun x y => Same x y ∧ P x y) xs ys → P (.set xs) (.set ys)
  object : ∀ {fs gs}, List.Forall₂ (fun f g => (Same f.1 g.1 ∧ P f.1 g.1) ∧ Same f.2 g.2 ∧ P f.2 g.2) fs gs →
    P (.object fs) (.object gs)
  ref : ∀ {a b xs ys}, P a b → List.Forall₂ (fun x y => Same x y ∧ P x y) xs ys → P (.ref a xs) (.ref b ys)
  call : ∀ {a b xs ys}, P a b → List.Forall₂ (fun x y => Same x y ∧ P x y) xs ys → P (.call a xs) (.call b ys)

theorem isAtom_eq_rank (t : Term) : t.isAtom = (decide (t.rank < 4) || decide (9 < t.rank)) := by
  cases t <;> rfl

theorem Same.isAtom_eq {a b : Term} (h : Same a b) : a.isAtom = b.isAtom := by
  rw [isAtom_eq_rank, isAtom_eq_rank, h.rank_eq]

mutual
/-- Such a relation holds of all equal terms. -/
theorem Congruent.of_same {P : Term → Term → Prop} (hP : Congruent P) : ∀ a b : Term, Same a b → P a b
  | .array xs, b, h => by
    cases b with
    | array ys => exact hP.array (hP.of_sameList xs ys (same_array.1 h))
    | _ => exact absurd h.rank_eq nofun
  | .set xs, b, h => by
    cases b with
    | set ys => exact hP.set (hP.of_sameList xs ys (same_set.1 h))
    | _ => exact absurd h.rank_eq nofun
  | .object fs, b, h => by
    cases b with
    | object gs => exact hP.object (hP.of_sameFields fs gs (same_object.1 h))
    | _ => exact absurd h.rank_eq nofun
  | .var x, b, h => by
    cases b with
    | var y => exact same_var.1 h ▸ hP.var x
    | _ => exact absurd h.rank_eq nofun
  | .ref a xs, b, h => by
    cases b with
    | ref c ys => exact hP.ref (hP.of_same a c (same_ref.1 h).1) (hP.of_sameList xs ys (same_ref.1 h).2)
    | _ => exact absurd h.rank_eq nofun
  | .call a xs, b, h => by
    cases b with
    | call c ys => exact hP.call (hP.of_same a c (same_call.1 h).1) (hP.of_sameList xs ys (same_call.1 h).2)
    | _ => exact absurd h.rank_eq nofun
  | .null, _, h | .bool _, _, h | .number _, _, h | .string _, _, h | .arrayCompr _ _, _, h | .setCompr _ _, _, h
  | .objectCompr _ _ _, _, h => hP.atom rfl h.isAtom_eq.symm h
theorem Congruent.of_sameList {P : Term → Term → Prop} (hP : Congruent P) :
    ∀ xs ys : List Term, List.Forall₂ Same xs ys → List.Forall₂ (fun x y => Same x y ∧ P x y) xs ys
  | [], _, h => by
    cases h
    exact .nil
  | x :: xs, ys, h => by
    cases h with
    | cons hxy hrest => exact .cons ⟨hxy, hP.of_same x _ hxy⟩ (hP.of_sameList xs _ hrest)
theorem Congruent.of_sameFields {P : Term → Term → Prop} (hP : Congruent P) :
    ∀ fs gs : List (Term × Term), List.Forall₂ SameField fs gs →
      List.Forall₂ (fun f g => (Same f.1 g.1 ∧ P f.1 g.1) ∧ Same f.2 g.2 ∧ P f.2 g.2) fs gs
  | [], _, h => by
    cases h
    exact .nil
  | (k, v) :: fs, gs, h => by
    cases h with
    | cons hfg hrest =>
      exact .cons ⟨⟨hfg.1, hP.of_same k _ hfg.1⟩, hfg.2, hP.of_same v _ hfg.2⟩ (hP.of_sameFields fs _ hrest)
end

theorem size_of_isAtom {t : Term} (h : t.isAtom = true) : t.size = 1 := by
  cases t <;> first | rfl | cases h

theorem isGround_of_isAtom {t : Term} (h : t.isAtom = true) : t.isGround = true := by
  cases t <;> first | rfl | cases h

theorem sizeList_congr {xs ys : List Term} (h : List.Forall₂ (fun x y => Same x y ∧ x.size = y.size) xs ys) :
    sizeList xs = sizeList ys := by
  induction h with
  | nil => rfl
  | cons hxy _ ih => rw [sizeList, sizeList, hxy.2, ih]

theorem congruent_size : Congruent fun a b => a.size = b.size where
  atom ha hb _ := (size_of_isAtom ha).trans (size_of_isAtom hb).symm
  var _ := rfl
  array h := by rw [size, size, sizeList_congr h]
  set h := by rw [size, size, sizeList_congr h]
  object h := by
    rw [size, size, Nat.add_right_cancel_iff]
    induction h with
    | nil => rfl
    | cons hfg _ ih => rw [sizeFields, sizeFields, hfg.1.2, hfg.2.2, ih]
  ref ha h := by rw [size, size, ha, sizeList_congr h]
  call ha h := by rw [size, size, ha, sizeList_congr h]

theorem Same.size_eq {a b : Term} (h : Same a b) : a.size = b.size := congruent_size.of_same a b h

theorem listVars_congr {xs ys : List Term} (h : List.Forall₂ (fun x y => Same x y ∧ x.vars = y.vars) xs ys) :
    listVars xs = listVars ys := by
  induction h with
  | nil => rfl
  | cons hxy _ ih => rw [listVars, listVars, hxy.2, ih]

theorem congruent_vars : Congruent fun a b => a.vars = b.vars where
  atom ha hb _ :=
    (vars_of_isGround _ (isGround_of_isAtom ha)).trans (vars_of_isGround _ (isGround_of_isAtom hb)).symm
  var _ := rfl
  array h := by rw [vars, vars, listVars_congr h]
  set h := by rw [vars, vars, listVars_congr h]
  object h := by
    rw [vars, vars]
    induction h with
    | nil => rfl
    | cons hfg _ ih => rw [fieldsVars, fieldsVars, hfg.1.2, hfg.2.2, ih]
  ref ha h := by rw [vars, vars, ha, listVars_congr h]
  call ha h := by rw [vars, vars, ha, listVars_congr h]

theorem Same.vars_eq {a b : Term} (h : Same a b) : a.vars = b.vars := congruent_vars.of_same a b h

theorem allGround_congr {xs ys : List Term} (h : List.Forall₂ (fun x y => Same x y ∧ x.isGround = y.isGround) xs ys) :
    allGround xs = allGround ys := by
  induction h with
  | nil => rfl
  | cons hxy _ ih => rw [allGround, allGround, hxy.2, ih]

theorem fieldsGround_congr {fs gs : List (Term × Term)}
    (h : List.Forall₂ (fun f g => (Same f.1 g.1 ∧ f.1.isGround = g.1.isGround) ∧ Same f.2 g.2 ∧
      f.2.isGround = g.2.isGround) fs gs) : fieldsGround fs = fieldsGround gs := by
  induction h with
  | nil => rfl
  | cons hfg _ ih => rw [fieldsGround, fieldsGround, hfg.1.2, hfg.2.2, ih]

theorem congruent_isGround : Congruent fun a b => a.isGround = b.isGround where
  atom ha hb _ := (isGround_of_isAtom ha).trans (isGround_of_isAtom hb).symm
  var _ := rfl
  array h := allGround_congr h
  set h := allGround_congr h
  object h := fieldsGround_congr h
  ref _ _ := rfl
  call _ _ := rfl

theorem Same.isGround_eq {a b : Term} (h : Same a b) : a.isGround = b.isGround := congruent_isGround.of_same a b h

/-! ## Sets and objects of equal terms -/

/-- Lists within each other have the same set of members. -/
theorem same_setOf {xs ys : List Term} (h : Within Same xs ys) (h' : Within Same ys xs) :
    Same (setOf xs) (setOf ys) := by
  have hsort : ∀ {xs ys : List Term}, Within Same xs ys → Within Same (sortMembers xs) (sortMembers ys) := by
    intro xs ys h x hx
    obtain ⟨y, hy, hxy⟩ := h x (mem_sortMembers hx)
    obtain ⟨m, hm, hym⟩ := exists_mem_sortMembers hy
    exact ⟨m, hm, hxy.trans hym⟩
  exact set_beq_of_within (sortedBy_sortMembers xs) (sortedBy_sortMembers ys) (hsort h) (hsort h')

theorem within_of_forall₂ {xs ys : List Term} (h : List.Forall₂ Same xs ys) : Within Same xs ys := by
  induction h with
  | nil => exact List.forall_mem_nil _
  | cons hxy _ ih =>
    refine List.forall_mem_cons.2 ⟨⟨_, List.mem_cons_self, hxy⟩, fun x hx => ?_⟩
    obtain ⟨y, hy, hxy⟩ := ih x hx
    exact ⟨y, List.mem_cons_of_mem _ hy, hxy⟩

theorem same_setOf_of_forall₂ {xs ys : List Term} (h : List.Forall₂ Same xs ys) : Same (setOf xs) (setOf ys) :=
  same_setOf (within_of_forall₂ h) (within_of_forall₂ (h.flip.imp fun _ _ => Same.symm))

theorem forall₂_addField {f g : Term × Term} {fs gs : List (Term × Term)} (hfg : SameField f g)
    (h : List.Forall₂ SameField fs gs) : List.Forall₂ SameField (addField f.1 f.2 fs) (addField g.1 g.2 gs) := by
  induction h with
  | nil => exact .cons hfg .nil
  | @cons f' g' fs gs hfg' hrest ih =>
    have hcmp : f.1.cmp f'.1 = g.1.cmp g'.1 := by
      rw [cmp_congr _ _ f'.1 (beq_iff_cmp.1 hfg.1), cmp_congr_right (beq_iff_cmp.1 hfg'.1)]
    rw [addField, addField, hcmp]
    split
    · exact .cons hfg (.cons hfg' hrest)
    · exact .cons hfg' hrest
    · exact .cons hfg' ih

theorem same_objectOf {fs gs : List (Term × Term)} (h : List.Forall₂ SameField fs gs) :
    Same (objectOf fs) (objectOf gs) := by
  refine same_object.2 ?_
  induction h with
  | nil => exact .nil
  | cons hfg _ ih => exact forall₂_addField hfg ih

/-! ## Substitution -/

variable {f g : String → Term}

theorem substituteList_eq_map (ts : List Term) : substituteList f ts = ts.map (substitute f) := by
  induction ts with
  | nil => rfl
  | cons t rest ih => rw [substituteList, ih, List.map_cons]

theorem substituteFields_eq_map (fs : List (Term × Term)) :
    substituteFields f fs = fs.map fun p => (p.1.substitute f, p.2.substitute f) := by
  induction fs with
  | nil => rfl
  | cons p rest ih => rw [substituteFields, ih, List.map_cons]

mutual
theorem substitute_of_isGround : ∀ t : Term, t.isGround = true → t.substitute f = t
  | .array items, h => by rw [substitute, substituteList_of_allGround items h]
  | .set _, h => by
    rw [isGround] at h
    rw [substitute, if_pos h]
  | .object _, h => by
    rw [isGround] at h
    rw [substitute, if_pos h]
  | .null, _ | .bool _, _ | .number _, _ | .string _, _ => rfl
  | .arrayCompr _ _, _ | .setCompr _ _, _ | .objectCompr _ _ _, _ => rfl
theorem substituteList_of_allGround : ∀ ts : List Term, allGround ts = true → substituteList f ts = ts
  | [], _ => rfl
  | t :: rest, h => by
    rw [allGround, Bool.and_eq_true] at h
    rw [substituteList, substitute_of_isGround t h.1, substituteList_of_allGround rest h.2]
end

theorem substitute_array (items : List Term) : (Term.array items).substitute f = .array (items.map (substitute f)) := by
  rw [substitute, substituteList_eq_map]

theorem substitute_ref (head : Term) (operands : List Term) :
    (Term.ref head operands).substitute f = .ref (head.substitute f) (operands.map (substitute f)) := by
  rw [substitute, substituteList_eq_map]

theorem substitute_call (operator : Term) (arguments : List Term) :
    (Term.call operator arguments).substitute f = .call (operator.substitute f) (arguments.map (substitute f)) := by
  rw [substitute, substituteList_eq_map]

theorem substitute_set {members : List Term} (h : SortedBy id members) :
    (Term.set members).substitute f = setOf (members.map (substitute f)) := by
  rw [substitute, substituteList_eq_map]
  split
  · next hground =>
    rw [setOf, List.map_congr_left fun t ht => substitute_of_isGround t (allGround_iff.1 hground t ht), List.map_id',
      sortMembers_of_sorted h]
  · rfl

theorem SortedBy.map {γ δ : Type} {key : γ → Term} {key' : δ → Term} {xs : List γ} {h : γ → δ} (hs : SortedBy key xs)
    (hkey : ∀ x ∈ xs, key' (h x) = key x) : SortedBy key' (xs.map h) := by
  refine List.pairwise_map.2 (List.Pairwise.imp_of_mem (fun {x y} hx hy hlt => ?_) hs)
  rw [hkey x hx, hkey y hy]
  exact hlt

/-- The object with terms put in place in its values. -/
theorem substitute_object {fields : List (Term × Term)} (h : SortedBy Prod.fst fields)
    (hkeys : ∀ p ∈ fields, p.1.isGround = true) :
    (Term.object fields).substitute f = .object (fields.map fun p => (p.1, p.2.substitute f)) := by
  rw [substitute, substituteFields_eq_map]
  have hmap : fields.map (fun p => (p.1.substitute f, p.2.substitute f)) =
      fields.map fun p => (p.1, p.2.substitute f) :=
    List.map_congr_left fun p hp => by rw [substitute_of_isGround _ (hkeys p hp)]
  split
  · next hground =>
    have hvalues : ∀ p ∈ fields, (p.1, p.2.substitute f) = p := fun p hp => by
      rw [substitute_of_isGround _ (fieldsGround_iff.1 hground p hp).2]
    rw [List.map_congr_left hvalues, List.map_id']
  · have hsorted : SortedBy Prod.fst (fields.map fun p => (p.1, p.2.substitute f)) := h.map fun _ _ => rfl
    rw [hmap, objectOf, sortFields_of_sorted hsorted]

theorem rank_substitute {t : Term} (h : t.isVar = false) : (t.substitute f).rank = t.rank := by
  cases t with
  | var x => cases h
  | set members =>
    rw [substitute]
    split <;> rfl
  | object fields =>
    rw [substitute]
    split <;> rfl
  | _ => rfl

theorem isVar_eq_rank (t : Term) : t.isVar = decide (t.rank = 7) := by
  cases t <;> rfl

theorem isVar_substitute {t : Term} (h : t.isVar = false) : (t.substitute f).isVar = false := by
  rw [isVar_eq_rank, rank_substitute h, ← isVar_eq_rank, h]

theorem congruent_substitute (f : String → Term) : Congruent fun a b => Same (a.substitute f) (b.substitute f) where
  atom ha hb h := by
    rwa [substitute_of_isGround _ (isGround_of_isAtom ha), substitute_of_isGround _ (isGround_of_isAtom hb)]
  var x := .refl _
  array h := by
    rw [substitute_array, substitute_array, same_array, List.forall₂_map_left_iff, List.forall₂_map_right_iff]
    exact h.imp fun _ _ => And.right
  set {xs ys} h := by
    have hground : allGround xs = allGround ys := allGround_congr (h.imp fun _ _ h => ⟨h.1, h.1.isGround_eq⟩)
    rw [substitute, substitute, hground, substituteList_eq_map, substituteList_eq_map]
    split
    · exact same_set.2 (h.imp fun _ _ => And.left)
    · refine same_setOf_of_forall₂ ?_
      rw [List.forall₂_map_left_iff, List.forall₂_map_right_iff]
      exact h.imp fun _ _ => And.right
  object {fs gs} h := by
    have hground : fieldsGround fs = fieldsGround gs :=
      fieldsGround_congr (h.imp fun _ _ h => ⟨⟨h.1.1, h.1.1.isGround_eq⟩, h.2.1, h.2.1.isGround_eq⟩)
    rw [substitute, substitute, hground, substituteFields_eq_map, substituteFields_eq_map]
    split
    · exact same_object.2 (h.imp fun _ _ h => ⟨h.1.1, h.2.1⟩)
    · refine same_objectOf ?_
      rw [List.forall₂_map_left_iff, List.forall₂_map_right_iff]
      exact h.imp fun _ _ h => ⟨h.1.2, h.2.2⟩
  ref ha h := by
    rw [substitute_ref, substitute_ref, same_ref, List.forall₂_map_left_iff, List.forall₂_map_right_iff]
    exact ⟨ha, h.imp fun _ _ => And.right⟩
  call ha h := by
    rw [substitute_call, substitute_call, same_call, List.forall₂_map_left_iff, List.forall₂_map_right_iff]
    exact ⟨ha, h.imp fun _ _ => And.right⟩

/-- Equal terms stay equal when the same terms are put in place. -/
theorem Same.substitute {a b : Term} (h : Same a b) (f : String → Term) : Same (a.substitute f) (b.substitute f) :=
  (congruent_substitute f).of_same a b h

theorem mem_vars_iff {t : Term} {z : String} : z ∈ t.vars ↔ ¬t.VarsIn (· ≠ z) := by
  simp [VarsIn]

theorem varsIn_setOf {p : String → Prop} {ts : List Term} : (setOf ts).VarsIn p ↔ ∀ t ∈ ts, t.VarsIn p := by
  rw [setOf, varsIn_set]
  refine ⟨fun h t ht => ?_, fun h t ht => h t (mem_sortMembers ht)⟩
  obtain ⟨m, hm, hsame⟩ := exists_mem_sortMembers ht
  rw [VarsIn, hsame.vars_eq]
  exact h m hm

theorem size_le_sizeList {t : Term} {ts : List Term} (h : t ∈ ts) : t.size ≤ sizeList ts := by
  induction ts with
  | nil => cases h
  | cons u rest ih =>
    rw [sizeList]
    rcases List.mem_cons.1 h with rfl | h
    · exact Nat.le_add_right _ _
    · exact (ih h).trans (Nat.le_add_left _ _)

theorem size_le_sizeFields {p : Term × Term} {fs : List (Term × Term)} (h : p ∈ fs) : p.2.size ≤ sizeFields fs := by
  induction fs with
  | nil => cases h
  | cons q rest ih =>
    rw [sizeFields]
    rcases List.mem_cons.1 h with rfl | h
    · omega
    · exact (ih h).trans (Nat.le_add_left _ _)

theorem forall₂_map {γ δ : Type} {R : δ → δ → Prop} {h h' : γ → δ} {xs : List γ} (hR : ∀ x ∈ xs, R (h x) (h' x)) :
    List.Forall₂ R (xs.map h) (xs.map h') := by
  rw [List.forall₂_map_left_iff, List.forall₂_map_right_iff]
  exact List.forall₂_same.2 hR

theorem forall₂_map_iff_zip {γ δ : Type} {R : δ → δ → Prop} {h h' : γ → δ} {xs ys : List γ} :
    List.Forall₂ R (xs.map h) (ys.map h') ↔
      (xs.length == ys.length) = true ∧ ∀ p ∈ xs.zip ys, R (h p.1) (h' p.2) := by
  rw [List.forall₂_map_left_iff, List.forall₂_map_right_iff, List.forall₂_iff_zip, beq_iff_eq]
  exact and_congr_right fun _ => ⟨fun h p hp => h hp, fun h _ _ hp => h _ hp⟩

/-! ## Ground keys -/

/-- The keys of objects are ground, and collections with variables are in order. -/
inductive Keyed : Term → Prop where
  | ground {t : Term} : t.isGround = true → Keyed t
  | var {x : String} : Keyed (.var x)
  | array {items : List Term} : (∀ t ∈ items, Keyed t) → Keyed (.array items)
  | set {members : List Term} : SortedBy id members → (∀ t ∈ members, Keyed t) → Keyed (.set members)
  | object {fields : List (Term × Term)} : SortedBy Prod.fst fields → (∀ p ∈ fields, p.1.isGround = true) →
      (∀ p ∈ fields, Keyed p.2) → Keyed (.object fields)
  | ref {head : Term} {operands : List Term} : Keyed head → (∀ t ∈ operands, Keyed t) → Keyed (.ref head operands)
  | call {operator : Term} {arguments : List Term} : Keyed operator → (∀ t ∈ arguments, Keyed t) →
      Keyed (.call operator arguments)

theorem Keyed.item {items : List Term} (h : (Term.array items).Keyed) {t : Term} (ht : t ∈ items) : t.Keyed := by
  cases h with
  | ground h => exact .ground (hereditary_isGround.array.1 h t ht)
  | array h => exact h t ht

theorem Keyed.field {fields : List (Term × Term)} (h : (Term.object fields).Keyed) {p : Term × Term} (hp : p ∈ fields) :
    p.1.isGround = true ∧ p.2.Keyed := by
  cases h with
  | ground h => exact (hereditary_isGround.object.1 h p hp).imp_right .ground
  | object _ hkeys h => exact ⟨hkeys p hp, h p hp⟩

namespace Keyed

variable {t : Term} (h : t.Keyed)

include h

theorem substitute_var : t.substitute .var = t := by
  induction h with
  | ground h => exact substitute_of_isGround _ h
  | var => rfl
  | array _ ih => rw [substitute_array, List.map_congr_left ih, List.map_id']
  | set hsorted _ ih =>
    rw [substitute_set hsorted, List.map_congr_left ih, List.map_id', setOf, sortMembers_of_sorted hsorted]
  | @object fields hsorted hkeys _ ih =>
    have hfields : ∀ p ∈ fields, (p.1, p.2.substitute .var) = p := fun p hp => Prod.ext rfl (ih p hp)
    rw [substitute_object hsorted hkeys, List.map_congr_left hfields, List.map_id']
  | ref _ _ ih ihs => rw [substitute_ref, ih, List.map_congr_left ihs, List.map_id']
  | call _ _ ih ihs => rw [substitute_call, ih, List.map_congr_left ihs, List.map_id']

/-- An instance depends on what is put in place of the variables that occur. -/
theorem substitute_congr (hfg : t.VarsIn fun x => f x = g x) : t.substitute f = t.substitute g := by
  induction h with
  | ground h => rw [substitute_of_isGround _ h, substitute_of_isGround _ h]
  | var => exact varsIn_var.1 hfg
  | array _ ih =>
    rw [varsIn_array] at hfg
    rw [substitute_array, substitute_array, List.map_congr_left fun t ht => ih t ht (hfg t ht)]
  | set hsorted _ ih =>
    rw [varsIn_set] at hfg
    rw [substitute_set hsorted, substitute_set hsorted, List.map_congr_left fun t ht => ih t ht (hfg t ht)]
  | @object fields hsorted hkeys _ ih =>
    rw [varsIn_object] at hfg
    have hfields : ∀ p ∈ fields, (p.1, p.2.substitute f) = (p.1, p.2.substitute g) :=
      fun p hp => Prod.ext rfl (ih p hp (hfg p hp).2)
    rw [substitute_object hsorted hkeys, substitute_object hsorted hkeys, List.map_congr_left hfields]
  | ref _ _ ih ihs =>
    rw [varsIn_ref] at hfg
    rw [substitute_ref, substitute_ref, ih hfg.1, List.map_congr_left fun t ht => ihs t ht (hfg.2 t ht)]
  | call _ _ ih ihs =>
    rw [varsIn_call] at hfg
    rw [substitute_call, substitute_call, ih hfg.1, List.map_congr_left fun t ht => ihs t ht (hfg.2 t ht)]

/-- Equal terms may be put in place of the variables that occur. -/
theorem same_substitute (hfg : t.VarsIn fun x => Same (f x) (g x)) : Same (t.substitute f) (t.substitute g) := by
  induction h with
  | ground h =>
    rw [substitute_of_isGround _ h, substitute_of_isGround _ h]
    exact .refl _
  | var => exact varsIn_var.1 hfg
  | array _ ih =>
    rw [varsIn_array] at hfg
    rw [substitute_array, substitute_array, same_array]
    exact forall₂_map fun t ht => ih t ht (hfg t ht)
  | set hsorted _ ih =>
    rw [varsIn_set] at hfg
    rw [substitute_set hsorted, substitute_set hsorted]
    exact same_setOf_of_forall₂ (forall₂_map fun t ht => ih t ht (hfg t ht))
  | object hsorted hkeys _ ih =>
    rw [varsIn_object] at hfg
    rw [substitute_object hsorted hkeys, substitute_object hsorted hkeys, same_object]
    exact forall₂_map fun p hp => ⟨beq_refl _, ih p hp (hfg p hp).2⟩
  | ref _ _ ih ihs =>
    rw [varsIn_ref] at hfg
    rw [substitute_ref, substitute_ref, same_ref]
    exact ⟨ih hfg.1, forall₂_map fun t ht => ihs t ht (hfg.2 t ht)⟩
  | call _ _ ih ihs =>
    rw [varsIn_call] at hfg
    rw [substitute_call, substitute_call, same_call]
    exact ⟨ih hfg.1, forall₂_map fun t ht => ihs t ht (hfg.2 t ht)⟩

/-- Substitutions compose. Members of a set that the first makes equal are one member for the second. -/
theorem substitute_substitute : Same ((t.substitute f).substitute g) (t.substitute fun x => (f x).substitute g) := by
  induction h with
  | ground h =>
    rw [substitute_of_isGround _ h, substitute_of_isGround _ h, substitute_of_isGround _ h]
    exact .refl _
  | var => exact .refl _
  | array _ ih =>
    rw [substitute_array, substitute_array, substitute_array, List.map_map, same_array]
    exact forall₂_map ih
  | @set members hsorted _ ih =>
    rw [substitute_set hsorted, substitute_set hsorted, setOf, substitute_set (sortedBy_sortMembers _)]
    refine same_setOf (fun u hu => ?_) fun u hu => ?_
    · obtain ⟨m, hm, rfl⟩ := List.mem_map.1 hu
      obtain ⟨t, ht, rfl⟩ := List.mem_map.1 (mem_sortMembers hm)
      exact ⟨_, List.mem_map_of_mem ht, ih t ht⟩
    · obtain ⟨t, ht, rfl⟩ := List.mem_map.1 hu
      obtain ⟨m, hm, hsame⟩ := exists_mem_sortMembers (List.mem_map_of_mem (f := substitute f) ht)
      exact ⟨_, List.mem_map_of_mem hm, (ih t ht).symm.trans (hsame.substitute g)⟩
  | @object fields hsorted hkeys _ ih =>
    have hsorted' : SortedBy Prod.fst (fields.map fun p => (p.1, p.2.substitute f)) := hsorted.map fun _ _ => rfl
    rw [substitute_object hsorted hkeys, substitute_object hsorted hkeys,
      substitute_object hsorted' (List.forall_mem_map.2 hkeys), List.map_map, same_object]
    exact forall₂_map fun p hp => ⟨beq_refl _, ih p hp⟩
  | ref _ _ ih ihs =>
    rw [substitute_ref, substitute_ref, substitute_ref, List.map_map, same_ref]
    exact ⟨ih, forall₂_map ihs⟩
  | call _ _ ih ihs =>
    rw [substitute_call, substitute_call, substitute_call, List.map_map, same_call]
    exact ⟨ih, forall₂_map ihs⟩

/-- The variables of an instance are those of the terms put in place. -/
theorem varsIn_substitute {p : String → Prop} : (t.substitute f).VarsIn p ↔ t.VarsIn fun x => (f x).VarsIn p := by
  induction h with
  | ground h =>
    rw [substitute_of_isGround _ h]
    exact ⟨fun _ => .of_isGround h, fun _ => .of_isGround h⟩
  | @var x => exact (varsIn_var (p := fun y => (f y).VarsIn p) (x := x)).symm
  | array _ ih =>
    rw [substitute_array, varsIn_array, varsIn_array, List.forall_mem_map]
    exact forall₂_congr ih
  | set hsorted _ ih =>
    rw [substitute_set hsorted, varsIn_setOf, varsIn_set, List.forall_mem_map]
    exact forall₂_congr ih
  | object hsorted hkeys _ ih =>
    rw [substitute_object hsorted hkeys, varsIn_object, varsIn_object, List.forall_mem_map]
    exact forall₂_congr fun p hp =>
      and_congr ⟨fun _ => .of_isGround (hkeys p hp), fun _ => .of_isGround (hkeys p hp)⟩ (ih p hp)
  | ref _ _ ih ihs =>
    rw [substitute_ref, varsIn_ref, varsIn_ref, List.forall_mem_map]
    exact and_congr ih (forall₂_congr ihs)
  | call _ _ ih ihs =>
    rw [substitute_call, varsIn_call, varsIn_call, List.forall_mem_map]
    exact and_congr ih (forall₂_congr ihs)

theorem mem_vars_substitute {z : String} : z ∈ (t.substitute f).vars ↔ ∃ x ∈ t.vars, z ∈ (f x).vars := by
  rw [mem_vars_iff, h.varsIn_substitute, VarsIn]
  simp only [mem_vars_iff, not_forall, exists_prop]

/-- Instances with ground keys in place of variables have ground keys. -/
theorem substitute (hf : t.VarsIn fun x => (f x).Keyed) : (t.substitute f).Keyed := by
  induction h with
  | ground h =>
    rw [substitute_of_isGround _ h]
    exact .ground h
  | var => exact varsIn_var.1 hf
  | array _ ih =>
    rw [varsIn_array] at hf
    rw [substitute_array]
    exact .array (List.forall_mem_map.2 fun t ht => ih t ht (hf t ht))
  | set hsorted _ ih =>
    rw [varsIn_set] at hf
    rw [substitute_set hsorted]
    refine .set (sortedBy_sortMembers _) fun m hm => ?_
    obtain ⟨t, ht, rfl⟩ := List.mem_map.1 (mem_sortMembers hm)
    exact ih t ht (hf t ht)
  | object hsorted hkeys _ ih =>
    rw [varsIn_object] at hf
    rw [substitute_object hsorted hkeys]
    exact .object (hsorted.map fun _ _ => rfl) (List.forall_mem_map.2 hkeys)
      (List.forall_mem_map.2 fun p hp => ih p hp (hf p hp).2)
  | ref _ _ ih ihs =>
    rw [varsIn_ref] at hf
    rw [substitute_ref]
    exact .ref (ih hf.1) (List.forall_mem_map.2 fun t ht => ihs t ht (hf.2 t ht))
  | call _ _ ih ihs =>
    rw [varsIn_call] at hf
    rw [substitute_call]
    exact .call (ih hf.1) (List.forall_mem_map.2 fun t ht => ihs t ht (hf.2 t ht))

/-- What is put in place of a variable is smaller than the instance, unless it is all of it. -/
theorem size_lt_substitute {x : String} (hx : x ∈ t.vars) : t = .var x ∨ (f x).size < (t.substitute f).size := by
  have hpart : ∀ {u : Term} {n : Nat}, u = .var x ∨ (f x).size < (u.substitute f).size →
      (u.substitute f).size ≤ n → (f x).size < n + 1 := by
    rintro u n (rfl | hlt) hle
    · exact Nat.lt_succ_of_le hle
    · exact Nat.lt_succ_of_le (hlt.le.trans hle)
  induction h with
  | ground h =>
    rw [vars_of_isGround _ h] at hx
    cases hx
  | var => exact .inl (congrArg Term.var (List.mem_singleton.1 hx).symm)
  | array _ ih =>
    obtain ⟨t, ht, hxt⟩ := mem_listVars.1 hx
    rw [substitute_array]
    exact .inr (hpart (ih t ht hxt) (size_le_sizeList (List.mem_map_of_mem ht)))
  | set hsorted _ ih =>
    obtain ⟨t, ht, hxt⟩ := mem_listVars.1 hx
    obtain ⟨m, hm, hsame⟩ := exists_mem_sortMembers (List.mem_map_of_mem (f := Term.substitute f) ht)
    rw [substitute_set hsorted]
    exact .inr (hpart (ih t ht hxt) (hsame.size_eq.trans_le (size_le_sizeList hm)))
  | object hsorted hkeys _ ih =>
    obtain ⟨p, hp, hxk | hxv⟩ := mem_fieldsVars.1 hx
    · rw [vars_of_isGround _ (hkeys p hp)] at hxk
      cases hxk
    · rw [substitute_object hsorted hkeys]
      have hmem := List.mem_map_of_mem (f := fun p : Term × Term => (p.1, p.2.substitute f)) hp
      exact .inr (hpart (ih p hp hxv) (size_le_sizeFields hmem))
  | ref _ _ ih ihs =>
    rw [substitute_ref]
    rcases List.mem_append.1 hx with hxh | hxo
    · exact .inr (hpart (ih hxh) (Nat.le_add_right _ _))
    · obtain ⟨t, ht, hxt⟩ := mem_listVars.1 hxo
      exact .inr (hpart (ihs t ht hxt) ((size_le_sizeList (List.mem_map_of_mem ht)).trans (Nat.le_add_left _ _)))
  | call _ _ ih ihs =>
    rw [substitute_call]
    rcases List.mem_append.1 hx with hxh | hxo
    · exact .inr (hpart (ih hxh) (Nat.le_add_right _ _))
    · obtain ⟨t, ht, hxt⟩ := mem_listVars.1 hxo
      exact .inr (hpart (ihs t ht hxt) ((size_le_sizeList (List.mem_map_of_mem ht)).trans (Nat.le_add_left _ _)))

end Keyed

end Term
end PolicyEngine
