import PolicyEngine.Proofs.Answers
import PolicyEngine.Proofs.Loading

/-!
The results of built-ins. What a function of the core library answers is of its declared type, and it is a scalar or put
together from scalars and parts of the operands. So the library keeps every property that collections inherit from their
parts.
-/
namespace PolicyEngine

/-- A computation that may fail ends with a result that has a property, if it does not fail. -/
def Returns {ε β : Type} (p : β → Prop) (r : Except ε β) : Prop := ∀ b, r = .ok b → p b

section Returns

variable {ε β γ : Type} {p : β → Prop} {q : γ → Prop}

@[simp] theorem returns_ok {b : β} : Returns p (.ok b : Except ε β) ↔ p b :=
  ⟨fun h => h b rfl, fun h => by rintro _ ⟨⟩; exact h⟩

@[simp] theorem returns_error {e : ε} : Returns p (.error e : Except ε β) ↔ True := ⟨fun _ => trivial, fun _ => nofun⟩

theorem Returns.mono {r : Except ε β} (h : Returns p r) {p' : β → Prop} (hp : ∀ b, p b → p' b) : Returns p' r :=
  fun b hb => hp b (h b hb)

@[simp] theorem returns_bind {r : Except ε β} {f : β → Except ε γ} :
    Returns q (r >>= f) ↔ Returns (fun b => Returns q (f b)) r := by
  cases r with
  | error e => exact ⟨fun _ => nofun, fun _ => nofun⟩
  | ok b =>
    rw [returns_ok]
    rfl

@[simp] theorem returns_map {r : Except ε β} {f : β → γ} : Returns q (r.map f) ↔ Returns (fun b => q (f b)) r := by
  cases r with
  | error e => exact ⟨fun _ => nofun, fun _ => nofun⟩
  | ok b => rw [Except.map, returns_ok, returns_ok]

@[simp] theorem returns_true {r : Except ε β} : Returns (fun _ => True) r ↔ True :=
  ⟨fun _ => trivial, fun _ _ _ => trivial⟩

end Returns

@[simp] theorem ifSome_some_iff {β : Type} {p : β → Prop} {b : β} : IfSome p (some b) ↔ p b :=
  ⟨fun h => h b rfl, ifSome_some⟩

@[simp] theorem returns_value {p : Term → Prop} {t : Term} : Returns (IfSome p) (Operand.value t) ↔ p t :=
  returns_ok.trans ifSome_some_iff

/-- Values of the type are scalars. -/
def OperandType.isScalar : OperandType → Bool
  | .null | .boolean | .number | .string => true
  | _ => false

theorem OperandType.isScalar_of_accepts {type : OperandType} {t : Term} (h : type.isScalar = true)
    (ht : type.accepts t = true) : t.isScalar = true := by
  cases type with
  | null | boolean | number | string => cases t <;> first | rfl | cases ht
  | any | array | object | set | union _ => cases h

section

variable {b : Bool} {n : Number} {s : String} {ts : List Term} {fields : List (Term × Term)} {i : Int} {k : Nat}

@[simp] theorem OperandType.accepts_bool : OperandType.boolean.accepts (.bool b) = true := rfl
@[simp] theorem OperandType.accepts_number : OperandType.number.accepts (.number n) = true := rfl
@[simp] theorem OperandType.accepts_ofNat : OperandType.number.accepts (.ofNat k) = true := rfl
@[simp] theorem OperandType.accepts_ofInt : OperandType.number.accepts (.ofInt i) = true := rfl
@[simp] theorem OperandType.accepts_string : OperandType.string.accepts (.string s) = true := rfl
@[simp] theorem OperandType.accepts_array : OperandType.array.accepts (.array ts) = true := rfl
@[simp] theorem OperandType.accepts_set : OperandType.set.accepts (.set ts) = true := rfl
@[simp] theorem OperandType.accepts_setOf : OperandType.set.accepts (.setOf ts) = true := rfl
@[simp] theorem OperandType.accepts_object : OperandType.object.accepts (.object fields) = true := rfl

theorem OperandType.accepts_numberOrSet {t : Term} : (OperandType.union [.number, .set]).accepts t =
    (OperandType.number.accepts t || OperandType.set.accepts t) := by
  show (OperandType.number.accepts t || (OperandType.set.accepts t || false)) = _
  rw [Bool.or_false]

end

namespace Term.Hereditary

variable {V : Term → Prop} (hV : Term.Hereditary V)

include hV

theorem of_isJson {t : Term} (h : t.IsJson) : V t := by
  induction h with
  | scalar h => exact hV.scalar h
  | array _ ih => exact hV.array.2 ih
  | object hkeys _ ih =>
    refine hV.object.2 fun f hf => ⟨?_, ih f hf⟩
    obtain ⟨name, hname⟩ := hkeys f hf
    exact hname ▸ hV.scalar rfl

/-! ## Operands -/

theorem returns_array {t : Term} (h : V t) : Returns (fun ts => ∀ u ∈ ts, V u) (Operand.array t) := by
  cases t <;> first | exact returns_ok.2 (hV.array.1 h) | exact nofun

theorem returns_set {t : Term} (h : V t) : Returns (fun ts => ∀ u ∈ ts, V u) (Operand.set t) := by
  cases t <;> first | exact returns_ok.2 (hV.set.1 h) | exact nofun

theorem returns_object {t : Term} (h : V t) : Returns (fun fs => ∀ f ∈ fs, V f.1 ∧ V f.2) (Operand.object t) := by
  cases t <;> first | exact returns_ok.2 (hV.object.1 h) | exact nofun

theorem returns_iterable {t : Term} (h : V t) : Returns (fun ts => ∀ u ∈ ts, V u) (Operand.iterable t) := by
  cases t with
  | array items => exact returns_ok.2 (hV.array.1 h)
  | set members => exact returns_ok.2 (hV.set.1 h)
  | _ => exact nofun

end Term.Hereditary

namespace Builtin

/-- A function answers with values of a type only. -/
def Answering (type : OperandType) (run : List Term → BuiltinResult) : Prop :=
  ∀ args, Returns (IfSome fun v => type.accepts v = true) (run args)

/-- A function answers operands with a property with values that have it. -/
def Keeping (V : Term → Prop) (run : List Term → BuiltinResult) : Prop :=
  ∀ args, (∀ t ∈ args, V t) → Returns (IfSome V) (run args)

/-- What a built-in answers is of its declared type. -/
def Typed (b : Builtin) : Prop :=
  ∀ context args host, Returns (IfSome fun v => b.result.accepts v = true) (b.invoke context args host).1

/-- What a built-in answers to operands with a property has it, whatever else it looks at. -/
def Keeps (V : Term → Prop) (b : Builtin) : Prop :=
  ∀ context args host, (∀ t ∈ args, V t) → Returns (IfSome V) (b.invoke context args host).1

section

variable {name : String} {operands : List OperandType} {result : OperandType} {run : List Term → BuiltinResult}

theorem Answering.typed (h : Answering result run) : (ofPure name operands result run).Typed := fun _ args _ => h args

theorem Keeping.keeps {V : Term → Prop} (h : Keeping V run) : (ofPure name operands result run).Keeps V :=
  fun _ args _ => h args

end

/-! ## Declared types -/

theorem answering_comparison (accept : Ordering → Bool) : Answering .boolean (comparison accept) := by
  intro args
  unfold comparison
  split <;> simp

theorem answering_member2 : Answering .boolean member2 := by
  intro args
  unfold member2
  split <;> simp

theorem answering_member3 : Answering .boolean member3 := by
  intro args
  unfold member3
  split <;> simp

theorem answering_kindTest (kind : String) : Answering .boolean (kindTest kind) := by
  intro args
  unfold kindTest
  split <;> simp

theorem answering_typeNameOf : Answering .string typeNameOf := by
  intro args
  unfold typeNameOf
  split <;> simp

theorem answering_onNumbers (f : Number → Number → Except Number.ArithmeticError Number) :
    Answering .number (onNumbers f) := by
  intro args
  unfold onNumbers
  split
  · simp only [returns_bind]
    intro x _ y _
    split <;> simp
  · simp

theorem answering_onNumber (f : Number → Number) : Answering .number (onNumber f) := by
  intro args
  unfold onNumber
  split <;> simp

theorem answering_toNumber : Answering .number toNumber := by
  intro args
  unfold toNumber
  split <;> (try split) <;> simp

theorem answering_randomInt (draw : Draw) : Answering .number (randomInt draw) := by
  intro args
  unfold randomInt
  split <;> simp

/-- A drawn number is below the size of its bound, unless that is zero. -/
theorem exists_randomInt (draw : Draw) (seed : String) {x : Term} {bound : Int} (hx : Operand.integer x = .ok bound)
    (hbound : bound ≠ 0) :
    ∃ n < bound.natAbs, randomInt draw [.string seed, x] = Operand.value (Term.ofNat n) := by
  refine ⟨draw.pick seed bound, draw.pick_lt seed hbound, ?_⟩
  rw [randomInt, hx]
  rfl

theorem answering_count : Answering .number count := by
  intro args
  unfold count
  split <;> simp

theorem answering_foldNumbers (start : Number) (f : Number → Number → Number) :
    Answering .number (foldNumbers start f) := by
  intro args
  unfold foldNumbers
  split <;> simp

theorem answering_objectSubset : Answering .boolean objectSubset := by
  intro args
  unfold objectSubset
  split <;> simp

theorem answering_concat : Answering .string concat := by
  intro args
  unfold concat
  split <;> simp

theorem answering_stringTest (f : List Char → List Char → Bool) : Answering .boolean (stringTest f) := by
  intro args
  unfold stringTest
  split <;> simp

theorem answering_onString (f : String → String) : Answering .string (onString f) := by
  intro args
  unfold onString
  split <;> simp

theorem answering_formatInt : Answering .string formatInt := by
  intro args
  unfold formatInt
  split
  · simp only [returns_bind]
    intro n _ radix _
    split
    · split <;> simp
    · simp
  · simp

theorem answering_indexOf : Answering .number indexOf := by
  intro args
  unfold indexOf
  split
  · simp only [returns_bind]
    intro s _ t _
    split <;> simp
  · simp

theorem answering_replace : Answering .string replace := by
  intro args
  unfold replace
  split <;> simp

theorem answering_sprintf : Answering .string sprintf := by
  intro args
  unfold sprintf
  split <;> simp

theorem answering_substring : Answering .string substring := by
  intro args
  unfold substring
  split
  · simp only [returns_bind]
    intro s _ start _ length _
    split <;> simp
  · simp

theorem answering_trim : Answering .string trim := by
  intro args
  unfold trim
  split <;> simp

theorem answering_jsonIsValid : Answering .boolean jsonIsValid := by
  intro args
  unfold jsonIsValid
  split <;> simp

theorem answering_jsonMarshal : Answering .string jsonMarshal := by
  intro args
  unfold jsonMarshal
  split
  · split <;> simp
  · simp

theorem answering_minus : Answering (.union [.number, .set]) minus := by
  intro args
  unfold minus
  split
  · split
    · simp [OperandType.accepts_numberOrSet]
    · simp [OperandType.accepts_numberOrSet]
    · refine (answering_onNumbers _ _).mono fun v hv t ht => ?_
      have hnumber := hv t ht
      simp only [OperandType.accepts_numberOrSet, hnumber, Bool.true_or]
  · simp

theorem answering_numbersRange : Answering .array numbersRange := by
  intro args
  unfold numbersRange
  split
  · simp only [returns_bind]
    intro first _ last _
    split <;> simp
  · simp

theorem answering_split : Answering .array split := by
  intro args
  unfold split
  split <;> simp

theorem answering_sort : Answering .array sort := by
  intro args
  unfold sort
  split <;> simp

theorem answering_arrayConcat : Answering .array arrayConcat := by
  intro args
  unfold arrayConcat
  split <;> simp

theorem answering_arrayReverse : Answering .array arrayReverse := by
  intro args
  unfold arrayReverse
  split <;> simp

theorem answering_arraySlice : Answering .array arraySlice := by
  intro args
  unfold arraySlice
  split <;> simp

theorem answering_onSets (f : List Term → List Term → List Term) : Answering .set (onSets f) := by
  intro args
  unfold onSets
  split <;> simp

theorem answering_onSetOfSets (f : List (List Term) → List Term) : Answering .set (onSetOfSets f) := by
  intro args
  unfold onSetOfSets
  split <;> simp

theorem answering_objectFilter : Answering .object objectFilter := by
  intro args
  unfold objectFilter
  split <;> simp

theorem answering_objectRemove : Answering .object objectRemove := by
  intro args
  unfold objectRemove
  split <;> simp

theorem answering_objectKeys : Answering .set objectKeys := by
  intro args
  unfold objectKeys
  split <;> simp

theorem returns_operand_object (t : Term) : Returns (fun fields => t = .object fields) (Operand.object t) := by
  cases t <;> simp [Operand.object]

theorem answering_objectUnion : Answering .object objectUnion := by
  intro args
  unfold objectUnion
  split
  · simp only [returns_bind, returns_value]
    rename_i a b
    refine (returns_operand_object a).mono fun first ha => (returns_operand_object b).mono fun second hb => ?_
    rw [ha, hb, uniteTerms]
    rfl
  · simp

theorem returns_uniteAll_object (index : Nat) (fields : List (Term × Term)) (ts : List Term) :
    Returns (fun v => OperandType.object.accepts v = true) (uniteAll index (.object fields) ts) := by
  induction ts generalizing index fields with
  | nil => exact returns_ok.2 rfl
  | cons t rest ih =>
    simp only [uniteAll]
    split
    · rw [uniteTerms]
      exact ih _ _
    · simp

theorem answering_objectUnionN : Answering .object objectUnionN := by
  intro args
  unfold objectUnionN
  split
  · simp only [returns_bind, returns_value]
    exact fun items _ => returns_uniteAll_object 0 [] items
  · simp

theorem answering_any (run : List Term → BuiltinResult) : Answering .any run := fun _ _ _ _ _ => rfl

/-! ## Inherited properties -/

mutual
/-- United terms have a property that both have. -/
theorem uniteTerms_kept {V : Term → Prop} (hV : Term.Hereditary V) {a : Term} (ha : V a) :
    ∀ b : Term, V b → V (uniteTerms a b)
  | .object second, hb => by
    rw [uniteTerms.eq_def]
    dsimp only
    split
    · have hfirst := hV.object.1 ha
      exact hV.object.2 (uniteFields_kept hV hfirst second hfirst (hV.object.1 hb))
    · exact hb
  | .null, hb | .bool _, hb | .number _, hb | .string _, hb | .array _, hb | .set _, hb | .var _, hb | .ref _ _, hb
  | .call _ _, hb | .arrayCompr _ _, hb | .setCompr _ _, hb | .objectCompr _ _ _, hb => by
    rw [uniteTerms.eq_def]
    exact hb
theorem uniteFields_kept {V : Term → Prop} (hV : Term.Hereditary V) {first : List (Term × Term)}
    (hfirst : ∀ f ∈ first, V f.1 ∧ V f.2) : ∀ (second : List (Term × Term)) {result : List (Term × Term)},
      (∀ f ∈ result, V f.1 ∧ V f.2) → (∀ f ∈ second, V f.1 ∧ V f.2) → ∀ f ∈ uniteFields first result second, V f.1 ∧ V f.2
  | [], _, hresult, _ => hresult
  | (k, v) :: rest, _, hresult, hsecond => by
    rw [List.forall_mem_cons] at hsecond
    rw [uniteFields]
    refine uniteFields_kept hV hfirst rest (Term.forall_insertField hresult hsecond.1.1 ?_) hsecond.2
    split
    · next u hu =>
      obtain ⟨k', hk'⟩ := Term.mem_of_findField? hu
      exact uniteTerms_kept hV (hfirst _ hk').2 v hsecond.1.2
    · exact hsecond.1.2
end

section Parts

variable {V : Term → Prop} (hV : Term.Hereditary V)

include hV

/-- Scalars have the property. -/
theorem Answering.keeping {type : OperandType} {run : List Term → BuiltinResult} (h : Answering type run)
    (ht : type.isScalar = true) : Keeping V run :=
  fun args _ => (h args).mono fun _ hr t ht' => hV.scalar (OperandType.isScalar_of_accepts ht (hr t ht'))

theorem keeping_minus : Keeping V minus := by
  intro args hargs
  have hdifference : ∀ a b, V a → V b → Returns (IfSome V) (do
      let x ← Operand.set a
      let y ← Operand.set b
      Operand.value (.set (setDifference x y)) : BuiltinResult) := by
    intro a b ha hb
    simp only [returns_bind, returns_value]
    exact (hV.returns_set ha).mono fun x hx => (hV.returns_set hb).mono fun y _ =>
      hV.set.2 fun t ht => hx t (List.mem_filter.1 ht).1
  unfold minus
  split
  · simp only [List.forall_mem_cons] at hargs
    split
    · exact hdifference _ _ hargs.1 hargs.2.1
    · exact hdifference _ _ hargs.1 hargs.2.1
    · exact (answering_onNumbers _).keeping hV rfl _ (by simpa using hargs)
  · simp

theorem keeping_numbersRange : Keeping V numbersRange := by
  intro args _
  unfold numbersRange
  split
  · simp only [returns_bind]
    intro first _ last _
    split
    · simp
    · refine returns_value.2 (hV.array.2 fun t ht => ?_)
      obtain ⟨i, _, rfl⟩ := List.mem_map.1 ht
      exact hV.scalar rfl
  · simp

theorem keeping_split : Keeping V split := by
  intro args _
  unfold split
  split
  · simp only [returns_bind, returns_value]
    refine fun s _ delimiter _ => hV.array.2 fun t ht => ?_
    obtain ⟨piece, _, rfl⟩ := List.mem_map.1 ht
    exact hV.scalar rfl
  · simp

/-! ### Elements -/

omit hV in
theorem ifSome_greatest? {items : List Term} (h : ∀ t ∈ items, V t) : IfSome V (greatest? items) := by
  cases items with
  | nil => exact ifSome_none
  | cons t rest =>
    rw [List.forall_mem_cons] at h
    refine ifSome_some (List.foldlRecOn rest _ h.1 fun best hbest u hu => ?_)
    split
    · exact hbest
    · exact h.2 u hu

omit hV in
theorem ifSome_least? {items : List Term} (h : ∀ t ∈ items, V t) : IfSome V (least? items) := by
  cases items with
  | nil => exact ifSome_none
  | cons t rest =>
    rw [List.forall_mem_cons] at h
    refine ifSome_some (List.foldlRecOn rest _ h.1 fun best hbest u hu => ?_)
    split
    · exact h.2 u hu
    · exact hbest

theorem keeping_maxOf : Keeping V maxOf := by
  intro args hargs
  unfold maxOf
  split
  · rw [List.forall_mem_singleton] at hargs
    exact returns_bind.2 ((hV.returns_iterable hargs).mono fun items h => returns_ok.2 (ifSome_greatest? h))
  · simp

theorem keeping_minOf : Keeping V minOf := by
  intro args hargs
  unfold minOf
  split
  · rw [List.forall_mem_singleton] at hargs
    exact returns_bind.2 ((hV.returns_iterable hargs).mono fun items h => returns_ok.2 (ifSome_least? h))
  · simp

theorem keeping_sort : Keeping V sort := by
  intro args hargs
  unfold sort
  split
  · rw [List.forall_mem_singleton] at hargs
    simp only [returns_bind, returns_value]
    exact (hV.returns_iterable hargs).mono fun items h => hV.array.2 fun t ht => h t (List.mem_mergeSort.1 ht)
  · simp

theorem keeping_arrayConcat : Keeping V arrayConcat := by
  intro args hargs
  unfold arrayConcat
  split
  · simp only [List.forall_mem_cons] at hargs
    simp only [returns_bind, returns_value]
    exact (hV.returns_array hargs.1).mono fun x hx => (hV.returns_array hargs.2.1).mono fun y hy =>
      hV.array.2 (List.forall_mem_append.2 ⟨hx, hy⟩)
  · simp

theorem keeping_arrayReverse : Keeping V arrayReverse := by
  intro args hargs
  unfold arrayReverse
  split
  · rw [List.forall_mem_singleton] at hargs
    simp only [returns_bind, returns_value]
    exact (hV.returns_array hargs).mono fun items h => hV.array.2 fun t ht => h t (List.mem_reverse.1 ht)
  · simp

theorem keeping_arraySlice : Keeping V arraySlice := by
  intro args hargs
  unfold arraySlice
  split
  · simp only [List.forall_mem_cons] at hargs
    simp only [returns_bind, returns_value]
    exact (hV.returns_array hargs.1).mono fun items h start _ stop _ =>
      hV.array.2 fun t ht => h t (List.mem_of_mem_take (List.mem_of_mem_drop ht))
  · simp

/-! ### Sets -/

omit hV in
theorem forall_setIntersection {a b : List Term} (ha : ∀ t ∈ a, V t) (hb : ∀ t ∈ b, V t) :
    ∀ t ∈ setIntersection a b, V t := by
  intro t ht
  unfold setIntersection at ht
  split at ht
  · exact hb t (List.mem_filter.1 ht).1
  · exact ha t (List.mem_filter.1 ht).1

omit hV in
theorem forall_setUnion {a b : List Term} (ha : ∀ t ∈ a, V t) (hb : ∀ t ∈ b, V t) : ∀ t ∈ setUnion a b, V t := by
  refine List.foldlRecOn (motive := fun members => ∀ t ∈ members, V t) b _ ha fun members hmembers t ht => ?_
  exact Term.forall_insertMember hmembers (hb t ht)

theorem keeping_onSets {f : List Term → List Term → List Term}
    (hf : ∀ a b, (∀ t ∈ a, V t) → (∀ t ∈ b, V t) → ∀ t ∈ f a b, V t) : Keeping V (onSets f) := by
  intro args hargs
  unfold onSets
  split
  · simp only [List.forall_mem_cons] at hargs
    simp only [returns_bind, returns_value]
    exact (hV.returns_set hargs.1).mono fun x hx => (hV.returns_set hargs.2.1).mono fun y hy => hV.set.2 (hf x y hx hy)
  · simp

theorem returns_memberSets (whole : Term) {ts : List Term} (h : ∀ t ∈ ts, V t) :
    Returns (fun sets => ∀ s ∈ sets, ∀ t ∈ s, V t) (memberSets whole ts) := by
  induction ts with
  | nil => simp [memberSets]
  | cons t rest ih =>
    rw [List.forall_mem_cons] at h
    cases t with
    | set members =>
      simp only [memberSets, returns_map, List.forall_mem_cons]
      exact (ih h.2).mono fun sets hsets => ⟨hV.set.1 h.1, hsets⟩
    | _ => simp [memberSets]

theorem keeping_onSetOfSets {f : List (List Term) → List Term}
    (hf : ∀ sets, (∀ s ∈ sets, ∀ t ∈ s, V t) → ∀ t ∈ f sets, V t) : Keeping V (onSetOfSets f) := by
  intro args hargs
  unfold onSetOfSets
  split
  · rw [List.forall_mem_singleton] at hargs
    simp only [returns_bind, returns_value]
    exact (hV.returns_set hargs).mono fun members h => (returns_memberSets hV _ h).mono fun sets hsets =>
      hV.set.2 (hf sets hsets)
  · simp

omit hV in
theorem forall_intersectionOf {sets : List (List Term)} (h : ∀ s ∈ sets, ∀ t ∈ s, V t) :
    ∀ t ∈ intersectionOf sets, V t := by
  cases sets with
  | nil => exact nofun
  | cons first rest =>
    rw [List.forall_mem_cons] at h
    refine List.foldlRecOn (motive := fun members => ∀ t ∈ members, V t) rest _ h.1 fun members hmembers s hs => ?_
    exact forall_setIntersection hmembers (h.2 s hs)

omit hV in
theorem forall_unionOf {sets : List (List Term)} (h : ∀ s ∈ sets, ∀ t ∈ s, V t) : ∀ t ∈ unionOf sets, V t := by
  refine List.foldlRecOn (motive := fun members => ∀ t ∈ members, V t) sets _ (List.forall_mem_nil _)
    fun members hmembers s hs => ?_
  exact forall_setUnion hmembers (h s hs)

/-! ### Objects -/

theorem keeping_objectFilter : Keeping V objectFilter := by
  intro args hargs
  unfold objectFilter
  split
  · simp only [List.forall_mem_cons] at hargs
    simp only [returns_bind, returns_value]
    exact (hV.returns_object hargs.1).mono fun fields h keys _ => hV.object.2 fun f hf => h f (List.mem_filter.1 hf).1
  · simp

theorem keeping_objectRemove : Keeping V objectRemove := by
  intro args hargs
  unfold objectRemove
  split
  · simp only [List.forall_mem_cons] at hargs
    simp only [returns_bind, returns_value]
    exact (hV.returns_object hargs.1).mono fun fields h keys _ => hV.object.2 fun f hf => h f (List.mem_filter.1 hf).1
  · simp

theorem ifSome_follow {path : List Term} {t : Term} (h : V t) : IfSome V (follow t path) := by
  induction path generalizing t with
  | nil => exact ifSome_some h
  | cons key rest ih =>
    intro v hv
    obtain ⟨u, hu, hv⟩ := Option.bind_eq_some_iff.1 hv
    exact ih (hV.lookup h hu) v hv

theorem keeping_objectGet : Keeping V objectGet := by
  intro args hargs
  have hdefault : ∀ {found : Option Term} {default : Term}, IfSome V found → V default → V (found.getD default) := by
    intro found default hfound hd
    cases found with
    | none => exact hd
    | some v => exact hfound v rfl
  unfold objectGet
  split
  · simp only [List.forall_mem_cons] at hargs
    simp only [returns_bind]
    refine (hV.returns_object hargs.1).mono fun fields h => ?_
    split
    · exact returns_value.2 (hdefault (ifSome_follow hV hargs.1) hargs.2.2.1)
    · refine returns_value.2 (hdefault (fun v hv => ?_) hargs.2.2.1)
      obtain ⟨k, hk⟩ := Term.mem_of_findField? hv
      exact (h _ hk).2
  · simp

theorem keeping_objectKeys : Keeping V objectKeys := by
  intro args hargs
  unfold objectKeys
  split
  · rw [List.forall_mem_singleton] at hargs
    simp only [returns_bind, returns_value]
    refine (hV.returns_object hargs).mono fun fields h => hV.setOf fun t ht => ?_
    obtain ⟨f, hf, rfl⟩ := List.mem_map.1 ht
    exact (h f hf).1
  · simp

theorem keeping_objectUnion : Keeping V objectUnion := by
  intro args hargs
  unfold objectUnion
  split
  · simp only [List.forall_mem_cons] at hargs
    simp only [returns_bind, returns_value]
    exact fun _ _ _ _ => uniteTerms_kept hV hargs.1 _ hargs.2.1
  · simp

theorem returns_uniteAll (index : Nat) {total : Term} {ts : List Term} (ht : V total) (hts : ∀ t ∈ ts, V t) :
    Returns V (uniteAll index total ts) := by
  induction ts generalizing index total with
  | nil => exact returns_ok.2 ht
  | cons t rest ih =>
    rw [List.forall_mem_cons] at hts
    simp only [uniteAll]
    split
    · exact ih _ (uniteTerms_kept hV ht _ hts.1) hts.2
    · simp

theorem keeping_objectUnionN : Keeping V objectUnionN := by
  intro args hargs
  unfold objectUnionN
  split
  · rw [List.forall_mem_singleton] at hargs
    simp only [returns_bind, returns_value]
    exact (hV.returns_array hargs).mono fun items h => returns_uniteAll hV 0 hV.emptyObject h
  · simp

/-! ### Text that is read -/

theorem keeping_jsonUnmarshal : Keeping V jsonUnmarshal := by
  intro args _
  unfold jsonUnmarshal
  split
  · simp only [returns_bind]
    intro s _
    split
    · next t ht =>
      obtain ⟨json, _, hjson⟩ := Option.bind_eq_some_iff.1 ht
      exact returns_value.2 (hV.of_isJson (Term.isJson_ofJson? json hjson))
    · simp
  · simp

end Parts

/-! ## The core library -/

theorem typed_print : ({ ofContextual "print" [] .boolean print with variadic := true, lenient := true } :
    Builtin).Typed :=
  fun _ _ _ => returns_value.2 rfl

theorem typed_trace : (ofContextual "trace" [.string] .boolean trace).Typed := by
  intro context args host
  simp only [invoke, ofContextual, trace]
  split <;> simp

theorem typed_nowNs : ({ ofContextual "time.now_ns" [] .number nowNs with deterministic := false } : Builtin).Typed :=
  fun _ _ _ => returns_value.2 rfl

theorem typed_comparisonBuiltins : ∀ b ∈ comparisonBuiltins, b.Typed := by
  simp only [comparisonBuiltins, List.forall_mem_cons]
  exact ⟨(answering_comparison _).typed, (answering_comparison _).typed, (answering_comparison _).typed,
    (answering_comparison _).typed, (answering_comparison _).typed, (answering_comparison _).typed,
    answering_member2.typed, answering_member3.typed, (answering_kindTest _).typed, (answering_kindTest _).typed,
    (answering_kindTest _).typed, (answering_kindTest _).typed, (answering_kindTest _).typed,
    (answering_kindTest _).typed, (answering_kindTest _).typed, answering_typeNameOf.typed, List.forall_mem_nil _⟩

theorem typed_numberBuiltins (draw : Draw) : ∀ b ∈ numberBuiltins draw, b.Typed := by
  simp only [numberBuiltins, List.forall_mem_cons]
  exact ⟨(answering_onNumbers _).typed, answering_minus.typed, (answering_onNumbers _).typed,
    (answering_onNumbers _).typed, (answering_onNumbers _).typed, (answering_onNumber _).typed,
    (answering_onNumber _).typed, (answering_onNumber _).typed, (answering_onNumber _).typed,
    answering_numbersRange.typed, answering_toNumber.typed, fun _ args _ => answering_randomInt draw args,
    List.forall_mem_nil _⟩

theorem typed_collectionBuiltins : ∀ b ∈ collectionBuiltins, b.Typed := by
  simp only [collectionBuiltins, List.forall_mem_cons]
  exact ⟨answering_count.typed, (answering_any _).typed, (answering_any _).typed, (answering_foldNumbers _ _).typed,
    answering_sort.typed, (answering_foldNumbers _ _).typed, answering_arrayConcat.typed, answering_arrayReverse.typed,
    answering_arraySlice.typed, (answering_onSets _).typed, (answering_onSets _).typed, (answering_onSetOfSets _).typed,
    (answering_onSetOfSets _).typed, answering_objectFilter.typed, (answering_any _).typed, answering_objectKeys.typed,
    answering_objectRemove.typed, answering_objectSubset.typed, answering_objectUnion.typed,
    answering_objectUnionN.typed, List.forall_mem_nil _⟩

theorem typed_stringBuiltins : ∀ b ∈ stringBuiltins, b.Typed := by
  simp only [stringBuiltins, List.forall_mem_cons]
  exact ⟨answering_concat.typed, (answering_stringTest _).typed, (answering_stringTest _).typed,
    answering_formatInt.typed, answering_indexOf.typed, (answering_onString _).typed, answering_replace.typed,
    answering_split.typed, answering_sprintf.typed, (answering_stringTest _).typed, answering_substring.typed,
    answering_trim.typed, (answering_onString _).typed, (answering_onString _).typed, List.forall_mem_nil _⟩

theorem typed_contextBuiltins : ∀ b ∈ contextBuiltins, b.Typed := by
  simp only [contextBuiltins, List.forall_mem_cons]
  exact ⟨answering_jsonIsValid.typed, answering_jsonMarshal.typed, (answering_any _).typed, typed_print, typed_trace,
    typed_nowNs, List.forall_mem_nil _⟩

/-- What a function of the core library answers is of its declared type. -/
theorem typed_core {draw : Draw} {b : Builtin} (hb : (Registry.core draw).Callable b) : b.Typed := by
  have hmem := Registry.mem_of_callable_core hb
  simp only [List.mem_append] at hmem
  rcases hmem with (((h | h) | h) | h) | h
  · exact typed_comparisonBuiltins b h
  · exact typed_numberBuiltins draw b h
  · exact typed_collectionBuiltins b h
  · exact typed_stringBuiltins b h
  · exact typed_contextBuiltins b h

section Library

variable {V : Term → Prop} (hV : Term.Hereditary V)

include hV

/-- Answers of a scalar type have the property. -/
theorem Typed.keeps {b : Builtin} (h : b.Typed) (ht : b.result.isScalar = true) : b.Keeps V :=
  fun context args host _ => (h context args host).mono fun _ hr v hv =>
    hV.scalar (OperandType.isScalar_of_accepts ht (hr v hv))

/-! The functions whose answers may be collections are those that take the operands apart. -/

theorem keeps_numberBuiltins (draw : Draw) : ∀ b ∈ numberBuiltins draw, b.result.isScalar = true ∨ b.Keeps V := by
  simp only [numberBuiltins, List.forall_mem_cons]
  exact ⟨.inl rfl, .inr (keeping_minus hV).keeps, .inl rfl, .inl rfl, .inl rfl, .inl rfl, .inl rfl, .inl rfl, .inl rfl,
    .inr (keeping_numbersRange hV).keeps, .inl rfl, .inl rfl, List.forall_mem_nil _⟩

theorem keeps_collectionBuiltins : ∀ b ∈ collectionBuiltins, b.result.isScalar = true ∨ b.Keeps V := by
  simp only [collectionBuiltins, List.forall_mem_cons]
  exact ⟨.inl rfl, .inr (keeping_maxOf hV).keeps, .inr (keeping_minOf hV).keeps, .inl rfl, .inr (keeping_sort hV).keeps,
    .inl rfl, .inr (keeping_arrayConcat hV).keeps, .inr (keeping_arrayReverse hV).keeps,
    .inr (keeping_arraySlice hV).keeps, .inr (keeping_onSets hV fun _ _ => forall_setIntersection).keeps,
    .inr (keeping_onSets hV fun _ _ => forall_setUnion).keeps,
    .inr (keeping_onSetOfSets hV fun _ => forall_intersectionOf).keeps,
    .inr (keeping_onSetOfSets hV fun _ => forall_unionOf).keeps, .inr (keeping_objectFilter hV).keeps,
    .inr (keeping_objectGet hV).keeps, .inr (keeping_objectKeys hV).keeps, .inr (keeping_objectRemove hV).keeps,
    .inl rfl, .inr (keeping_objectUnion hV).keeps, .inr (keeping_objectUnionN hV).keeps, List.forall_mem_nil _⟩

theorem keeps_stringBuiltins : ∀ b ∈ stringBuiltins, b.result.isScalar = true ∨ b.Keeps V := by
  simp only [stringBuiltins, List.forall_mem_cons]
  exact ⟨.inl rfl, .inl rfl, .inl rfl, .inl rfl, .inl rfl, .inl rfl, .inl rfl, .inr (keeping_split hV).keeps, .inl rfl,
    .inl rfl, .inl rfl, .inl rfl, .inl rfl, .inl rfl, List.forall_mem_nil _⟩

theorem keeps_contextBuiltins : ∀ b ∈ contextBuiltins, b.result.isScalar = true ∨ b.Keeps V := by
  simp only [contextBuiltins, List.forall_mem_cons]
  exact ⟨.inl rfl, .inl rfl, .inr (keeping_jsonUnmarshal hV).keeps, .inl rfl, .inl rfl, .inl rfl, List.forall_mem_nil _⟩

/-- A function of the core library answers operands with the property with values that have it. -/
theorem keeps_core {draw : Draw} {b : Builtin} (hb : (Registry.core draw).Callable b) : b.Keeps V := by
  have hmem := Registry.mem_of_callable_core hb
  simp only [List.mem_append] at hmem
  suffices hkeeps : b.result.isScalar = true ∨ b.Keeps V from
    hkeeps.elim (fun hscalar => (typed_core hb).keeps hV hscalar) id
  rcases hmem with (((h | h) | h) | h) | h
  · have hall : (comparisonBuiltins.all fun b => b.result.isScalar) = true := rfl
    exact .inl (List.all_eq_true.1 hall b h)
  · exact keeps_numberBuiltins hV draw b h
  · exact keeps_collectionBuiltins hV b h
  · exact keeps_stringBuiltins hV b h
  · exact keeps_contextBuiltins hV b h

end Library

end Builtin
end PolicyEngine
