import PolicyEngine.Proofs.Environments

/-!
The way of unification through terms. It goes down from two terms to their parts, following variables, and each term on
the way lies inside those before it. In an acyclic environment none is met twice, so the number of parts bounds the
depth: going deeper than unification does changes nothing.
-/
namespace PolicyEngine

/-! ## Steps of unification -/

/-- Array, object or set. -/
def Term.isCollection : Term → Bool
  | .array _ | .object _ | .set _ => true
  | _ => false

theorem Term.isCollection_eq_rank (t : Term) :
    t.isCollection = (decide (t.rank = 4) || decide (t.rank = 5) || decide (t.rank = 6)) := by
  cases t <;> rfl

/-- How two terms meet in which no variable is left to follow. -/
inductive Meeting : Term → Term → Prop where
  | vars (l r : String) : Meeting (.var l) (.var r)
  | left (l : String) {y : Term} : y.isVar = false → Meeting (.var l) y
  | right {x : Term} (r : String) : x.isVar = false → Meeting x (.var r)
  | arrays (l r : List Term) : Meeting (.array l) (.array r)
  | objects (l r : List (Term × Term)) : Meeting (.object l) (.object r)
  | sets (l r : List Term) : Meeting (.set l) (.set r)
  | others {x y : Term} : x.isVar = false → y.isVar = false → (x.isCollection = true → x.rank ≠ y.rank) → Meeting x y

theorem meeting (x y : Term) : Meeting x y := by
  cases hx : x.isVar with
  | true =>
    obtain ⟨l, rfl⟩ := Term.exists_of_isVar hx
    cases hy : y.isVar with
    | true =>
      obtain ⟨r, rfl⟩ := Term.exists_of_isVar hy
      exact .vars l r
    | false => exact .left l hy
  | false =>
    cases hy : y.isVar with
    | true =>
      obtain ⟨r, rfl⟩ := Term.exists_of_isVar hy
      exact .right r hx
    | false =>
      cases x with
      | array l => cases y <;> first | exact .arrays _ _ | exact .others hx hy nofun
      | object l => cases y <;> first | exact .objects _ _ | exact .others hx hy nofun
      | set l => cases y <;> first | exact .sets _ _ | exact .others hx hy nofun
      | _ => exact .others hx hy nofun

namespace Bindings

variable {b : Bindings} {x y : Term} {n : Nat}

/-- A variable is not bound to a term in which it occurs, plugged. -/
theorem bind_of_mem {t : Term} {l : String} (hwild : l ≠ wildcard) (hocc : l ∈ (b.plug t).vars) :
    b.bind l t = none := by
  have hground : t.isGround = false := by
    by_contra h
    rw [Bool.not_eq_false] at h
    rw [plug_of_isGround h, Term.vars_of_isGround t h] at hocc
    cases hocc
  rw [bind, if_neg (by simpa using hwild), if_pos (by simpa [hground] using hocc)]

theorem bind_of_not_mem {t : Term} {l : String} (hwild : l ≠ wildcard) (hocc : l ∉ (b.plug t).vars) :
    b.bind l t = some (b.assign l (some t)) := by
  rw [bind, if_neg (by simpa using hwild), if_neg (by simpa using fun _ => hocc)]

theorem unifyTo_vars {l r : String} (hx : b.deref x = .var l) (hy : b.deref y = .var r) :
    unifyTo (n + 1) x y b = if l == r || l == wildcard || r == wildcard then some b else b.bind l (.var r) := by
  rw [unifyTo, hx, hy]

theorem unifyTo_left {l : String} (hx : b.deref x = .var l) (hy : (b.deref y).isVar = false) :
    unifyTo (n + 1) x y b = b.bind l (b.deref y) := by
  rw [unifyTo, hx]
  generalize b.deref y = u at hy ⊢
  cases u <;> first | rfl | cases hy

theorem unifyTo_right {r : String} (hx : (b.deref x).isVar = false) (hy : b.deref y = .var r) :
    unifyTo (n + 1) x y b = b.bind r (b.deref x) := by
  rw [unifyTo, hy]
  generalize b.deref x = u at hx ⊢
  cases u <;> first | rfl | cases hx

theorem unifyTo_arrays {l r : List Term} (hx : b.deref x = .array l) (hy : b.deref y = .array r) :
    unifyTo (n + 1) x y b =
      if l.length == r.length then (l.zip r).foldlM (fun b p => unifyTo n p.1 p.2 b) b else none := by
  rw [unifyTo, hx, hy]

/-- Keys that are ground stay as they are. -/
theorem plugKeys_eq {fields : List (Term × Term)} (hkeys : ∀ p ∈ fields, p.1.isGround = true) :
    b.plugKeys fields = Term.sortFields fields := by
  have hplug : ∀ p ∈ fields, (b.plug p.1, p.2) = p := fun p hp => by rw [plug_of_isGround (hkeys p hp)]
  rw [plugKeys, List.map_congr_left hplug, List.map_id']

theorem unifyTo_objects {l r l' r' : List (Term × Term)} (hx : b.deref x = .object l) (hy : b.deref y = .object r)
    (hl : b.plugKeys l = l') (hr : b.plugKeys r = r') :
    unifyTo (n + 1) x y b = if l'.length == r'.length && (l'.zip r').all (fun p => p.1.1 == p.2.1) then
      (l'.zip r').foldlM (fun b p => unifyTo n p.1.2 p.2.2 b) b else none := by
  rw [unifyTo, hx, hy]
  dsimp only
  rw [hl, hr]

theorem unifyTo_sets {l r : List Term} (hx : b.deref x = .set l) (hy : b.deref y = .set r) :
    unifyTo (n + 1) x y b = if b.plug (.set l) == b.plug (.set r) then some b else none := by
  rw [unifyTo, hx, hy]

theorem unifyTo_others (hx : (b.deref x).isVar = false) (hy : (b.deref y).isVar = false)
    (hkind : (b.deref x).isCollection = true → (b.deref x).rank ≠ (b.deref y).rank) :
    unifyTo (n + 1) x y b = if b.deref x == b.deref y then some b else none := by
  rw [unifyTo]
  generalize b.deref x = u at hx hkind ⊢
  generalize b.deref y = v at hy hkind ⊢
  cases u with
  | var _ => cases hx
  | array _ | object _ | set _ => cases v <;> first | rfl | exact absurd rfl (hkind rfl) | cases hy
  | _ => cases v <;> first | rfl | cases hy

end Bindings

/-! ## Terms and their parts -/

namespace Term

/-- What unification goes down to: an item of an array, or a value of an object. -/
inductive Part : Term → Term → Prop where
  | item {t : Term} {items : List Term} : t ∈ items → Part t (.array items)
  | value {p : Term × Term} {fields : List (Term × Term)} : p ∈ fields → Part p.2 (.object fields)

theorem Keyed.part {t u : Term} (h : t.Keyed) (hu : Part u t) : u.Keyed := by
  cases hu with
  | item hmem => exact h.item hmem
  | value hmem => exact (h.field hmem).2

theorem Keyed.size_part_lt {t u : Term} (h : t.Keyed) (hu : Part u t) (f : String → Term) :
    (u.substitute f).size < (t.substitute f).size := by
  cases hu with
  | item hmem =>
    rw [substitute_array]
    exact Nat.lt_succ_of_le (size_le_sizeList (List.mem_map_of_mem hmem))
  | @value p fields hmem =>
    cases h with
    | ground h =>
      rw [substitute_of_isGround _ h, substitute_of_isGround _ (hereditary_isGround.object.1 h p hmem).2]
      exact Nat.lt_succ_of_le (size_le_sizeFields hmem)
    | object hsorted hkeys _ =>
      have hmem := List.mem_map_of_mem (f := fun p : Term × Term => (p.1, p.2.substitute f)) hmem
      rw [substitute_object hsorted hkeys]
      exact Nat.lt_succ_of_le (size_le_sizeFields hmem)

mutual
/-- A term and its parts, and their parts. -/
def parts : Term → List Term
  | .array items => .array items :: listParts items
  | .object fields => .object fields :: fieldsParts fields
  | t => [t]
def listParts : List Term → List Term
  | [] => []
  | t :: rest => parts t ++ listParts rest
def fieldsParts : List (Term × Term) → List Term
  | [] => []
  | (_, v) :: rest => parts v ++ fieldsParts rest
end

theorem mem_parts_self (t : Term) : t ∈ t.parts := by
  cases t <;> exact List.mem_cons_self

theorem mem_listParts {t u : Term} {ts : List Term} (ht : t ∈ ts) (hu : u ∈ t.parts) : u ∈ listParts ts := by
  induction ts with
  | nil => cases ht
  | cons first rest ih =>
    rcases List.mem_cons.1 ht with rfl | ht
    · exact List.mem_append_left _ hu
    · exact List.mem_append_right _ (ih ht)

theorem mem_fieldsParts {p : Term × Term} {u : Term} {fs : List (Term × Term)} (hp : p ∈ fs) (hu : u ∈ p.2.parts) :
    u ∈ fieldsParts fs := by
  induction fs with
  | nil => cases hp
  | cons first rest ih =>
    rcases List.mem_cons.1 hp with rfl | hp
    · exact List.mem_append_left _ hu
    · exact List.mem_append_right _ (ih hp)

theorem mem_parts_of_part {t u : Term} (h : Part u t) : u ∈ t.parts := by
  cases h with
  | item hmem => exact List.mem_cons_of_mem _ (mem_listParts hmem (mem_parts_self u))
  | value hmem => exact List.mem_cons_of_mem _ (mem_fieldsParts hmem (mem_parts_self _))

mutual
/-- The parts of parts are parts. -/
theorem mem_parts_trans : ∀ (t : Term) {u v : Term}, u ∈ t.parts → Part v u → v ∈ t.parts
  | .array items, u, v, hu, hv => by
    rcases List.mem_cons.1 hu with rfl | hu
    · exact mem_parts_of_part hv
    · exact List.mem_cons_of_mem _ (mem_listParts_trans items hu hv)
  | .object fields, u, v, hu, hv => by
    rcases List.mem_cons.1 hu with rfl | hu
    · exact mem_parts_of_part hv
    · exact List.mem_cons_of_mem _ (mem_fieldsParts_trans fields hu hv)
  | .null, _, _, hu, hv | .bool _, _, _, hu, hv | .number _, _, _, hu, hv | .string _, _, _, hu, hv
  | .set _, _, _, hu, hv | .var _, _, _, hu, hv | .ref _ _, _, _, hu, hv | .call _ _, _, _, hu, hv
  | .arrayCompr _ _, _, _, hu, hv | .setCompr _ _, _, _, hu, hv | .objectCompr _ _ _, _, _, hu, hv => by
    rw [List.mem_singleton.1 hu] at hv
    cases hv
theorem mem_listParts_trans : ∀ (ts : List Term) {u v : Term}, u ∈ listParts ts → Part v u → v ∈ listParts ts
  | [], _, _, hu, _ => by cases hu
  | t :: rest, _, _, hu, hv => by
    rw [listParts, List.mem_append] at hu ⊢
    exact hu.imp (fun hu => mem_parts_trans t hu hv) fun hu => mem_listParts_trans rest hu hv
theorem mem_fieldsParts_trans :
    ∀ (fs : List (Term × Term)) {u v : Term}, u ∈ fieldsParts fs → Part v u → v ∈ fieldsParts fs
  | [], _, _, hu, _ => by cases hu
  | (_, t) :: rest, _, _, hu, hv => by
    rw [fieldsParts, List.mem_append] at hu ⊢
    exact hu.imp (fun hu => mem_parts_trans t hu hv) fun hu => mem_fieldsParts_trans rest hu hv
end

mutual
theorem length_parts_le : ∀ t : Term, t.parts.length ≤ t.size
  | .array items => Nat.succ_le_succ (length_listParts_le items)
  | .object fields => Nat.succ_le_succ (length_fieldsParts_le fields)
  | .set _ | .ref _ _ | .call _ _ => Nat.succ_le_of_lt (Nat.succ_pos _)
  | .null | .bool _ | .number _ | .string _ | .var _ => le_rfl
  | .arrayCompr _ _ | .setCompr _ _ | .objectCompr _ _ _ => le_rfl
theorem length_listParts_le : ∀ ts : List Term, (listParts ts).length ≤ sizeList ts
  | [] => le_rfl
  | t :: rest => by
    rw [listParts, List.length_append, sizeList]
    exact Nat.add_le_add (length_parts_le t) (length_listParts_le rest)
theorem length_fieldsParts_le : ∀ fs : List (Term × Term), (fieldsParts fs).length ≤ sizeFields fs
  | [] => le_rfl
  | (_, v) :: rest => by
    rw [fieldsParts, List.length_append, sizeFields]
    have := length_parts_le v
    have := length_fieldsParts_le rest
    omega
end

end Term

namespace Bindings

variable {b b' : Bindings} {x y t u a : Term}

open Term (Part)

/-! ## The way down -/

/-- A term lies below another one: it is a part of it, or of a term below it, or the value of a variable below it. -/
inductive Inside (b : Bindings) : Term → Term → Prop where
  | part {u a : Term} : Part u a → Inside b u a
  | trans {t u a : Term} : Inside b u a → Part t u → Inside b t a
  | follow {x : String} {t a : Term} : Inside b (.var x) a → b.lookup x = some t → Inside b t a

theorem Inside.mono (hkeeps : ∀ x t, b.lookup x = some t → b'.lookup x = some t) (h : b.Inside u a) :
    b'.Inside u a := by
  induction h with
  | part h => exact .part h
  | trans _ h ih => exact .trans ih h
  | follow _ h ih => exact .follow ih (hkeeps _ _ h)

theorem Inside.deref (hb : b.Acyclic) (h : b.Inside u a) : b.Inside (b.deref u) a :=
  hb.deref_induction (P := fun t u => b.Inside t a → b.Inside u a) (fun _ _ => id) (fun _ _ => id)
    (fun _ _ _ hx ih h => ih (h.follow hx)) u h

/-- A set of terms with a property that unification makes do with, parts included. -/
structure Universe (V : Term → Prop) (U : List Term) : Prop where
  all : ∀ t ∈ U, V t
  closed : ∀ t ∈ U, ∀ u, Part u t → u ∈ U

theorem Universe.mono {V W : Term → Prop} {U : List Term} (h : Universe V U) (hVW : ∀ t, V t → W t) : Universe W U :=
  ⟨fun t ht => hVW t (h.all t ht), h.closed⟩

/-- An acyclic environment with values from a set of terms. -/
structure Over (U : List Term) (b : Bindings) : Prop where
  acyclic : b.Acyclic
  values : b.Values (· ∈ U)

variable {U : List Term} (hU : Universe Term.Keyed U)

include hU

theorem Over.triangular (hb : Over U b) : b.Triangular :=
  ⟨hb.acyclic, fun x t hx => hU.all t (hb.values x t hx)⟩

/-- Plugged, what lies below a term is smaller. -/
theorem Inside.size_lt (hb : Over U b) (h : b.Inside u a) (ha : a ∈ U) :
    u ∈ U ∧ (b.plug u).size < (b.plug a).size := by
  have hplug : ∀ {t}, t ∈ U → b.plug t = t.substitute b.substitution := fun ht =>
    (hb.triangular hU).plug_eq_substitute (hU.all _ ht)
  have hpart : ∀ {t u}, t ∈ U → Part u t → u ∈ U ∧ (b.plug u).size < (b.plug t).size := by
    intro t u ht hu
    have huU := hU.closed t ht u hu
    rw [hplug ht, hplug huU]
    exact ⟨huU, (hU.all t ht).size_part_lt hu _⟩
  induction h with
  | part h => exact hpart ha h
  | trans _ h ih =>
    obtain ⟨hmem, hlt⟩ := ih ha
    exact (hpart hmem h).imp_right hlt.trans'
  | follow _ hx ih =>
    obtain ⟨_, hlt⟩ := ih ha
    rw [(hb.triangular hU).plug_bound hx] at hlt
    exact ⟨hb.values _ _ hx, hlt⟩

omit hU

/-- Terms met on the way down to a term, and the depth that is left: together they cover the set of terms. -/
structure Descent (U : List Term) (b : Bindings) (x : Term) (n : Nat) (above : List Term) : Prop where
  nodup : above.Nodup
  subset : above ⊆ U
  inside : ∀ a ∈ above, b.Inside x a
  depth : U.length ≤ n + above.length

include hU

/-- Before all terms are met there is some depth left. -/
theorem Descent.pos {n : Nat} {above : List Term} (h : Descent U b x n above) (hb : Over U b) (hx : x ∈ U) : 0 < n := by
  have hnew : x ∉ above := fun hmem =>
    lt_irrefl _ ((h.inside x hmem).size_lt hU hb (h.subset hmem)).2
  have hlength := ((List.nodup_cons.2 ⟨hnew, h.nodup⟩).subperm (List.cons_subset.2 ⟨hx, h.subset⟩)).length_le
  have hdepth := h.depth
  rw [List.length_cons] at hlength
  omega

/-- The way goes on to a part of where a term leads. -/
theorem Descent.part {n : Nat} {above : List Term} (h : Descent U b x (n + 1) above) (hb : Over U b) (hx : x ∈ U)
    (hkeeps : ∀ x t, b.lookup x = some t → b'.lookup x = some t) (hu : Part u (b.deref x)) :
    Descent U b' u n (b.deref x :: above) := by
  have hmem : b.deref x ∈ U := hb.values.deref hb.acyclic hx
  refine ⟨List.nodup_cons.2 ⟨fun hold => ?_, h.nodup⟩, List.cons_subset.2 ⟨hmem, h.subset⟩, ?_, ?_⟩
  · exact lt_irrefl _ (((h.inside _ hold).deref hb.acyclic).size_lt hU hb hmem).2
  · refine List.forall_mem_cons.2 ⟨.part hu, fun a ha => ?_⟩
    exact (((h.inside a ha).deref hb.acyclic).trans hu).mono hkeeps
  · have hdepth := h.depth
    rw [List.length_cons]
    omega

omit hU

/-! ## Depth -/

/-- An environment extends another one, and so do the environments that were passed through on the way. -/
structure Grows (U : List Term) (b b' : Bindings) : Prop where
  stays : Over U b'
  keeps : ∀ x t, b.lookup x = some t → b'.lookup x = some t
  adds : b.assignments <:+ b'.assignments
  between : ∀ s, b.assignments <:+ s → s <:+ b'.assignments → Over U ⟨s⟩

theorem Grows.refl (hb : Over U b) : Grows U b b := by
  refine ⟨hb, fun _ _ => id, List.suffix_rfl, fun s hbs hsb => ?_⟩
  obtain rfl : s = b.assignments := hsb.eq_of_length_le hbs.length_le
  exact hb

theorem Grows.trans {b'' : Bindings} (h : Grows U b b') (h' : Grows U b' b'') : Grows U b b'' := by
  refine ⟨h'.stays, fun x t hx => h'.keeps x t (h.keeps x t hx), h.adds.trans h'.adds, fun s hbs hsb => ?_⟩
  rcases List.suffix_or_suffix_of_suffix hsb h'.adds with hs | hs
  · exact h.between s hbs hs
  · exact h'.between s hs hsb

theorem Over.grows_assign {l : String} (hb : Over U b) (hU : Universe Term.Keyed U) (hl : b.lookup l = none)
    (ht : t ∈ U) (hocc : l ∉ (b.plug t).vars) : Grows U b (b.assign l (some t)) := by
  have hacyclic := ((hb.triangular hU).assign hl (hU.all t ht) hocc).acyclic
  have hover : Over U (b.assign l (some t)) := ⟨hacyclic, hb.values.assign ht⟩
  refine ⟨hover, fun x u hx => lookup_assign_of_lookup hl hx _, b.assign_suffix _ _, fun s hbs hsb => ?_⟩
  rcases List.suffix_cons_iff.1 hsb with rfl | hsb
  · exact hover
  · exact (Grows.refl hb).between s hbs hsb

/-- Two ways to go on come to the same, and extend the environment if they succeed. -/
def Agree (U : List Term) (b : Bindings) (r r' : Option Bindings) : Prop :=
  r' = r ∧ ∀ b', r = some b' → Grows U b b'

theorem agree_if (hb : Over U b) (c : Bool) :
    Agree U b (if c then some b else none) (if c then some b else none) := by
  refine ⟨rfl, fun b' hb' => ?_⟩
  cases c with
  | false => cases hb'
  | true => exact Option.some.inj hb' ▸ .refl hb

theorem agree_foldlM {β : Type} {f g : Bindings → β → Option Bindings} {ps : List β} (hb : Over U b)
    (hp : ∀ p ∈ ps, ∀ b', Grows U b b' → Agree U b' (f b' p) (g b' p)) (c : Bool) :
    Agree U b (if c then ps.foldlM f b else none) (if c then ps.foldlM g b else none) := by
  cases c with
  | false => exact agree_if hb false
  | true =>
    change Agree U b (ps.foldlM f b) (ps.foldlM g b)
    induction ps generalizing b with
    | nil => exact agree_if hb true
    | cons p rest ih =>
      rw [List.forall_mem_cons] at hp
      obtain ⟨hsame, hgrows⟩ := hp.1 b (.refl hb)
      rw [List.foldlM_cons, List.foldlM_cons, hsame]
      cases hr : f b p with
      | none => exact ⟨rfl, nofun⟩
      | some b₁ =>
        have h₁ := hgrows b₁ hr
        obtain ⟨hrest, hgrows'⟩ := ih h₁.stays fun q hq b₂ h₂ => hp.2 q hq b₂ (h₁.trans h₂)
        exact ⟨hrest, fun b₂ hb₂ => h₁.trans (hgrows' b₂ hb₂)⟩

include hU

theorem agree_bind {l : String} (hb : Over U b) (hl : b.lookup l = none) (ht : t ∈ U) :
    Agree U b (b.bind l t) (b.bind l t) := by
  refine ⟨rfl, fun b' hb' => ?_⟩
  by_cases hwild : l = wildcard
  · rw [bind, if_pos (by simpa using hwild)] at hb'
    exact Option.some.inj hb' ▸ .refl hb
  by_cases hocc : l ∈ (b.plug t).vars
  · rw [bind_of_mem hwild hocc] at hb'
    cases hb'
  · rw [bind_of_not_mem hwild hocc] at hb'
    exact Option.some.inj hb' ▸ hb.grows_assign hU hl ht hocc

/-- Where the way down fits into the depth, going deeper comes to the same. -/
theorem unifyTo_add (n m : Nat) {above : List Term} (hb : Over U b) (hx : x ∈ U) (hy : y ∈ U)
    (h : Descent U b x n above) : Agree U b (unifyTo n x y b) (unifyTo (n + m) x y b) := by
  -- the environment grows from part to part, but the terms met above stay above
  induction n generalizing x y b above with
  | zero => exact absurd (h.pos hU hb hx) (lt_irrefl _)
  | succ n ih =>
    rw [Nat.add_right_comm]
    have hxU : b.deref x ∈ U := hb.values.deref hb.acyclic hx
    have hyU : b.deref y ∈ U := hb.values.deref hb.acyclic hy
    have hpart : ∀ {u v b'}, Grows U b b' → Part u (b.deref x) → Part v (b.deref y) →
        Agree U b' (unifyTo n u v b') (unifyTo (n + m) u v b') :=
      fun hgrows hu hv => ih hgrows.stays (hU.closed _ hxU _ hu) (hU.closed _ hyU _ hv)
        (h.part hU hb hx hgrows.keeps hu)
    generalize hxd : b.deref x = x' at hxU hpart
    generalize hyd : b.deref y = y' at hyU hpart
    cases meeting x' y' with
    | vars l r =>
      rw [unifyTo_vars hxd hyd, unifyTo_vars hxd hyd]
      split
      · exact agree_if hb true
      · exact agree_bind hU hb (hb.acyclic.lookup_of_deref hxd) hyU
    | left l hvar =>
      rw [unifyTo_left hxd (hyd ▸ hvar), unifyTo_left hxd (hyd ▸ hvar), hyd]
      exact agree_bind hU hb (hb.acyclic.lookup_of_deref hxd) hyU
    | right r hvar =>
      rw [unifyTo_right (hxd ▸ hvar) hyd, unifyTo_right (hxd ▸ hvar) hyd, hxd]
      exact agree_bind hU hb (hb.acyclic.lookup_of_deref hyd) hxU
    | arrays l r =>
      rw [unifyTo_arrays hxd hyd, unifyTo_arrays hxd hyd]
      refine agree_foldlM hb (fun p hp b' hgrows => ?_) _
      exact hpart hgrows (.item (List.of_mem_zip hp).1) (.item (List.of_mem_zip hp).2)
    | objects l r =>
      have hl : b.plugKeys l = Term.sortFields l := plugKeys_eq fun p hp => ((hU.all _ hxU).field hp).1
      have hr : b.plugKeys r = Term.sortFields r := plugKeys_eq fun p hp => ((hU.all _ hyU).field hp).1
      rw [unifyTo_objects hxd hyd hl hr, unifyTo_objects hxd hyd hl hr]
      refine agree_foldlM hb (fun p hp b' hgrows => ?_) _
      exact hpart hgrows (.value (Term.mem_sortFields (List.of_mem_zip hp).1))
        (.value (Term.mem_sortFields (List.of_mem_zip hp).2))
    | sets l r =>
      rw [unifyTo_sets hxd hyd, unifyTo_sets hxd hyd]
      exact agree_if hb _
    | others hvx hvy hkind =>
      rw [unifyTo_others (hxd ▸ hvx) (hyd ▸ hvy) (hxd ▸ hyd ▸ hkind),
        unifyTo_others (hxd ▸ hvx) (hyd ▸ hvy) (hxd ▸ hyd ▸ hkind)]
      exact agree_if hb _

omit hU

/-! ## The parts there are -/

/-- The values of an environment and their parts. -/
def parts (b : Bindings) : List Term := b.assignments.flatMap fun a => (a.2.map Term.parts).getD []

theorem length_parts_le (b : Bindings) : b.parts.length ≤ b.size := by
  unfold parts size
  induction b.assignments with
  | nil => exact le_rfl
  | cons a rest ih =>
    obtain ⟨x, _ | t⟩ := a
    · rw [List.flatMap_cons, sizeOfAll, List.length_append]
      exact Nat.add_le_add le_rfl ih
    · rw [List.flatMap_cons, sizeOfAll, List.length_append]
      exact Nat.add_le_add t.length_parts_le ih

theorem mem_parts {b : Bindings} : u ∈ b.parts ↔ ∃ a ∈ b.assignments, ∃ t, a.2 = some t ∧ u ∈ t.parts := by
  rw [parts, List.mem_flatMap]
  refine exists_congr fun a => and_congr_right fun _ => ?_
  cases a.2 <;> simp

open Classical in
/-- The parts of two terms and of the values in an environment are a set of terms in which the two are unified. -/
theorem exists_universe {V : Term → Prop} (hV : ∀ t u, V t → Part u t → V u) (hb : b.Acyclic) (hvalues : b.Values V)
    (hx : V x) (hy : V y) :
    ∃ U, Universe V U ∧ Over U b ∧ x ∈ U ∧ y ∈ U ∧ Descent U b x (x.size + y.size + b.size) [] := by
  -- values that are covered by newer ones count for the depth, but need not have the property
  refine ⟨(x.parts ++ y.parts ++ b.parts).filter fun t => V t, ⟨fun t ht => ?_, fun t ht u hu => ?_⟩,
    ⟨hb, fun z t hz => ?_⟩, ?_, ?_, .nil, List.nil_subset _, List.forall_mem_nil _, ?_⟩
  · simpa using (List.mem_filter.1 ht).2
  · rw [List.mem_filter, List.mem_append, List.mem_append, mem_parts, decide_eq_true_eq] at ht ⊢
    obtain ⟨hmem, hproperty⟩ := ht
    refine ⟨hmem.imp (Or.imp (fun h => x.mem_parts_trans h hu) fun h => y.mem_parts_trans h hu) ?_, hV t u hproperty hu⟩
    rintro ⟨a, ha, v, hv, hmem⟩
    exact ⟨a, ha, v, hv, v.mem_parts_trans hmem hu⟩
  · obtain ⟨a, ha, hat⟩ := Option.bind_eq_some_iff.1 hz
    have hmem := mem_parts.2 ⟨a, List.mem_of_find?_eq_some ha, t, hat, t.mem_parts_self⟩
    exact List.mem_filter.2 ⟨List.mem_append_right _ hmem, by simpa using hvalues z t hz⟩
  · simp [x.mem_parts_self, hx]
  · simp [y.mem_parts_self, hy]
  · refine (List.length_filter_le _ _).trans ?_
    rw [List.length_append, List.length_append, List.length_nil, Nat.add_zero]
    exact Nat.add_le_add (Nat.add_le_add x.length_parts_le y.length_parts_le) b.length_parts_le

/-- Unification ends on its own: at every depth beyond its own it comes to the same. -/
theorem unifyTo_deeper (hb : b.Acyclic) (hvalues : b.Values Term.Keyed) (hx : x.Keyed) (hy : y.Keyed) (m : Nat) :
    unifyTo (x.size + y.size + b.size + m) x y b = b.unify x y := by
  obtain ⟨U, hU, hover, hxU, hyU, hdescent⟩ := exists_universe (fun _ _ => Term.Keyed.part) hb hvalues hx hy
  exact (unifyTo_add hU _ m hover hxU hyU hdescent).1

end Bindings
end PolicyEngine
