import PolicyEngine.Proofs.Descent

/-!
Unification that changes the environment in place. Variables are bound as it goes, and when two parts turn out to be
different the assignments made up to there are taken back. It comes to the same as making a new environment, and a
failure leaves everything as it was.
-/
namespace PolicyEngine
namespace Bindings

/-- Whether something succeeds for all of a list, in one environment; it is not tried after one for which it fails. -/
def tryAll {β : Type} (f : Bindings → β → Bool × Bindings) : List β → Bindings → Bool × Bindings
  | [], b => (true, b)
  | p :: rest, b =>
    let r := f b p
    if r.1 then tryAll f rest r.2 else r

def tryBind (name : String) (value : Term) (b : Bindings) : Bool × Bindings :=
  match b.bind name value with
  | some b' => (true, b')
  | none => (false, b)

/-- Unifies terms down to a depth. What was bound before a failure stays bound. -/
def tryUnifyTo : Nat → Term → Term → Bindings → Bool × Bindings
  | 0, _, _, b => (false, b)
  | n + 1, x, y, b =>
    match b.deref x, b.deref y with
    | .var l, .var r =>
      if l == r || l == wildcard || r == wildcard then (true, b) else b.tryBind l (.var r)
    | .var l, y => b.tryBind l y
    | x, .var r => b.tryBind r x
    | .array l, .array r =>
      if l.length == r.length then tryAll (fun b p => tryUnifyTo n p.1 p.2 b) (l.zip r) b else (false, b)
    | .object l, .object r =>
      let l := b.plugKeys l
      let r := b.plugKeys r
      if l.length == r.length && (l.zip r).all (fun p => p.1.1 == p.2.1) then
        tryAll (fun b p => tryUnifyTo n p.1.2 p.2.2 b) (l.zip r) b
      else (false, b)
    | .set l, .set r => (b.plug (.set l) == b.plug (.set r), b)
    | x, y => (x == y, b)

/-- Unifies terms in place, and takes back the assignments of a failed attempt. -/
def tryUnify (x y : Term) (b : Bindings) : Bool × Bindings :=
  let r := tryUnifyTo (x.size + y.size + b.size) x y b
  if r.1 then r else (false, r.2.undo b.mark)

variable {b : Bindings} {x y : Term}

/-- What is done in place comes to the same environment or fails alike, and in either case only adds assignments. -/
structure InPlace (b : Bindings) (r : Option Bindings) (a : Bool × Bindings) : Prop where
  adds : b.assignments <:+ a.2.assignments
  same : r = if a.1 then some a.2 else none

theorem inPlace_if (c : Bool) : InPlace b (if c then some b else none) (c, b) := ⟨List.suffix_rfl, rfl⟩

theorem inPlace_bind (name : String) (value : Term) : InPlace b (b.bind name value) (b.tryBind name value) := by
  rw [tryBind, bind]
  split
  · exact inPlace_if true
  · split
    · exact inPlace_if false
    · exact ⟨b.assign_suffix name (some value), rfl⟩

theorem inPlace_foldlM {β : Type} {f : Bindings → β → Option Bindings} {g : Bindings → β → Bool × Bindings}
    (h : ∀ b p, InPlace b (f b p) (g b p)) (ps : List β) {c : Bool} :
    InPlace b (if c then ps.foldlM f b else none) (if c then tryAll g ps b else (false, b)) := by
  cases c with
  | false => exact inPlace_if false
  | true =>
    change InPlace b (ps.foldlM f b) (tryAll g ps b)
    induction ps generalizing b with
    | nil => exact inPlace_if true
    | cons p rest ih =>
      obtain ⟨hadds, hsame⟩ := h b p
      rw [List.foldlM_cons, tryAll, hsame]
      cases hr : (g b p).1 with
      | false => exact ⟨by simpa [hr] using hadds, by simp [hr]⟩
      | true => exact ⟨hadds.trans ih.adds, ih.same⟩

theorem inPlace_unifyTo (n : Nat) (x y : Term) (b : Bindings) :
    InPlace b (unifyTo n x y b) (tryUnifyTo n x y b) := by
  induction n generalizing x y b with
  | zero => exact inPlace_if false
  | succ n ih =>
    generalize hxd : b.deref x = x'
    generalize hyd : b.deref y = y'
    cases meeting x' y' with
    | vars l r =>
      rw [unifyTo_vars hxd hyd, tryUnifyTo, hxd, hyd]
      dsimp only
      split
      · exact inPlace_if true
      · exact inPlace_bind l (.var r)
    | left l hvar =>
      rw [unifyTo_left hxd (hyd ▸ hvar), tryUnifyTo, hxd, hyd]
      cases y' <;> first | exact inPlace_bind l _ | cases hvar
    | right r hvar =>
      rw [unifyTo_right (hxd ▸ hvar) hyd, tryUnifyTo, hxd, hyd]
      cases x' <;> first | exact inPlace_bind r _ | cases hvar
    | arrays l r =>
      rw [unifyTo_arrays hxd hyd, tryUnifyTo, hxd, hyd]
      exact inPlace_foldlM (fun b (p : Term × Term) => ih p.1 p.2 b) _
    | objects l r =>
      rw [unifyTo_objects hxd hyd rfl rfl, tryUnifyTo, hxd, hyd]
      exact inPlace_foldlM (fun b (p : (Term × Term) × Term × Term) => ih p.1.2 p.2.2 b) _
    | sets l r =>
      rw [unifyTo_sets hxd hyd, tryUnifyTo, hxd, hyd]
      exact inPlace_if _
    | others hvx hvy hkind =>
      rw [unifyTo_others (hxd ▸ hvx) (hyd ▸ hvy) (hxd ▸ hyd ▸ hkind), tryUnifyTo, hxd, hyd]
      cases x' with
      | var => cases hvx
      | array | object | set => cases y' <;> first | exact inPlace_if _ | exact absurd rfl (hkind rfl) | cases hvy
      | _ => cases y' <;> first | exact inPlace_if _ | cases hvy

/-- In place, unification ends in the environment it would make, or in the one it began with. -/
theorem tryUnify_eq (b : Bindings) (x y : Term) : b.tryUnify x y = ((b.unify x y).isSome, (b.unify x y).getD b) := by
  obtain ⟨hadds, hsame⟩ := inPlace_unifyTo (x.size + y.size + b.size) x y b
  rw [tryUnify, unify, hsame]
  cases hr : (tryUnifyTo (x.size + y.size + b.size) x y b).1 with
  | false => simp [undo_mark hadds]
  | true => exact Prod.ext hr rfl

end Bindings
end PolicyEngine
