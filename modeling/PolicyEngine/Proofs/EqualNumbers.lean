import PolicyEngine.Number.Text
import PolicyEngine.Proofs.Integers
import PolicyEngine.Proofs.Rounding
import PolicyEngine.Proofs.TermOrder

/-!
Operations on equal numbers. An integer and a floating-point word of the same value are equal, but an operation computes
exactly with the one and rounds with the other. Both computations give equal results where the integers and the exact
result are values of words. The views of a number as an integer trust a word up to `2 ^ 53` only, so equal numbers are
seen alike up to there, and beyond it if both are words or neither is.
-/
namespace PolicyEngine.Number

open Double (Representable)

variable {a a' b b' : Number} {d d' : Double} {m n q : Int}

/-! ## Values -/

def isFloat : Number → Bool
  | .float _ => true
  | _ => false

/-- A number is a word or holds an integer. -/
theorem float_or_integer (a : Number) : (∃ d, a = .float d) ∨ ∃ m, a.exactInt? = some m := by
  cases a with
  | float d => exact .inl ⟨d, rfl⟩
  | _ => exact .inr ⟨_, rfl⟩

theorem isFloat_of_exactInt? (ha : a.exactInt? = some m) : a.isFloat = false := by
  cases a with
  | float d => cases ha
  | _ => rfl

theorem exact_float_inj : (float d).exact = (float d').exact ↔ d.value = d'.value := by
  simp only [exact]
  cases d.value with
  | finite r => cases d'.value with
    | infinity negative => cases negative <;> simp
    | _ => simp
  | infinity negative => cases negative <;> cases d'.value with
    | infinity negative' => cases negative' <;> simp
    | _ => simp
  | nan => cases d'.value with
    | infinity negative => cases negative <;> simp
    | _ => simp

theorem exact_finite_inj (h : a.exact = .finite m) (h' : a.exact = .finite n) : m = n := by
  rw [h, Exact.finite.injEq] at h'
  exact_mod_cast h'

theorem exactInt?_congr (h : a.exact = a'.exact) (ha : a.exactInt? = some m) (ha' : a'.exactInt? = some n) :
    m = n := exact_finite_inj (exact_of_exactInt? ha) (h.trans (exact_of_exactInt? ha'))

/-- A floating-point result is worth what its word stands for. -/
theorem exact_ofDouble (d : Double) : (ofDouble d).exact = (float d).exact := by
  rw [ofDouble]
  split
  · next i hi => rw [exact_ofInt, exact_float_eq_finite_iff.2 (smallInt?_eq_some_iff.1 hi).1]
  · rfl

theorem exact_ofDouble_congr (h : d.value = d'.value) : (ofDouble d).exact = (ofDouble d').exact := by
  rw [exact_ofDouble, exact_ofDouble, exact_float_inj.2 h]

theorem isZero_iff_exact : a.isZero = true ↔ a.exact = .finite 0 := by
  obtain ⟨d, rfl⟩ | ⟨m, hm⟩ := a.float_or_integer
  · rw [isZero, beq_iff_eq, Double.toInt?_eq_some_iff, exact_float_eq_finite_iff, Int.cast_zero]
  · rw [isZero_iff hm, exact_of_exactInt? hm, Exact.finite.injEq, Int.cast_eq_zero]

theorem isInteger_iff_exact : a.isInteger = true ↔ ∃ i : Int, a.exact = .finite i := by
  obtain ⟨d, rfl⟩ | ⟨m, hm⟩ := a.float_or_integer
  · simp only [isInteger, Option.isSome_iff_exists, Double.toInt?_eq_some_iff, exact_float_eq_finite_iff]
  · exact iff_of_true (isInteger_of_exactInt? hm) ⟨m, exact_of_exactInt? hm⟩

theorem isZero_congr (h : a.exact = a'.exact) : a.isZero = a'.isZero := by
  rw [Bool.eq_iff_iff, isZero_iff_exact, isZero_iff_exact, h]

theorem isInteger_congr (h : a.exact = a'.exact) : a.isInteger = a'.isInteger := by
  rw [Bool.eq_iff_iff, isInteger_iff_exact, isInteger_iff_exact, h]

/-! ## Numbers as words -/

/-- A number in a machine word and a big integer become the same floating-point word. -/
theorem toDouble_of_exactInt? (ha : a.exactInt? = some m) : a.toDouble = .ofLongInt m := by
  cases a with
  | float d => cases ha
  | unsigned v =>
    cases ha
    have hlt := v.toNat_lt
    exact (Double.ofLongInt_of_lt (by omega)).symm
  | signed v =>
    cases ha
    have hle := v.le_toInt
    have hlt := v.toInt_lt
    exact (Double.ofLongInt_of_lt (by omega)).symm
  | big v =>
    cases ha
    rfl

theorem value_ofLongInt (h : Representable m) : (Double.ofLongInt m).value = .finite m := by
  rw [Double.ofLongInt_of_representable h, Double.ofInt_eq, Double.value_ofRat h]

/-- A number whose value is that of a word becomes such a word. -/
theorem value_toDouble (h : a.exact = .finite m) (hm : Representable m) : a.toDouble.value = .finite m := by
  obtain ⟨d, rfl⟩ | ⟨i, hi⟩ := a.float_or_integer
  · exact exact_float_eq_finite_iff.1 h
  · rw [exact_of_exactInt? hi, Exact.finite.injEq, Int.cast_inj] at h
    rw [toDouble_of_exactInt? hi, h, value_ofLongInt hm]

/-- Equal numbers become words of one value. -/
theorem value_toDouble_congr (h : a.exact = a'.exact) : a.toDouble.value = a'.toDouble.value := by
  have hmixed : ∀ {a : Number} {d : Double} {m : Int}, a.exactInt? = some m → (float d).exact = a.exact →
      d.value = a.toDouble.value := by
    intro a d m ha h
    have hd := exact_float_eq_finite_iff.1 (h.trans (exact_of_exactInt? ha))
    rw [hd, value_toDouble (exact_of_exactInt? ha) ⟨d, hd⟩]
  obtain ⟨d, rfl⟩ | ⟨m, hm⟩ := a.float_or_integer
  · obtain ⟨d', rfl⟩ | ⟨m', hm'⟩ := a'.float_or_integer
    · exact exact_float_inj.1 h
    · exact hmixed hm' h
  · obtain ⟨d', rfl⟩ | ⟨m', hm'⟩ := a'.float_or_integer
    · exact (hmixed hm h.symm).symm
    · rw [toDouble_of_exactInt? hm, toDouble_of_exactInt? hm', exactInt?_congr h hm hm']

/-! ## Numbers as integers -/

/-- Both numbers are floating-point words or neither is, or their value is not an integer beyond `2 ^ 53` of the range
that is asked for. -/
def KeptAlike (range : Int → Bool) (a a' : Number) : Prop :=
  a.isFloat = a'.isFloat ∨ ∀ i : Int, a.exact = .finite i → range i = true → i.natAbs ≤ safeInteger.natAbs

/-- Every integer is asked for. -/
def anyInteger (_ : Int) : Bool := true

variable {range : Int → Bool}

theorem KeptAlike.symm (hkept : KeptAlike range a a') (h : a.exact = a'.exact) : KeptAlike range a' a := by
  obtain hkind | hle := hkept
  · exact .inl hkind.symm
  · exact .inr fun i hi => hle i (h ▸ hi)

theorem smallInt?_congr (h : d.value = d'.value) : smallInt? d = smallInt? d' := by
  ext i
  rw [smallInt?_eq_some_iff, smallInt?_eq_some_iff, h]

/-- Equal numbers are two words or the same integer, unless one of them is a word and the other is not. -/
theorem same_kind_cases (hkind : a.isFloat = a'.isFloat) (h : a.exact = a'.exact) :
    (∃ d d', a = .float d ∧ a' = .float d' ∧ d.value = d'.value) ∨ ∃ m, a.exactInt? = some m ∧ a'.exactInt? = some m := by
  obtain ⟨d, rfl⟩ | ⟨m, hm⟩ := a.float_or_integer
  · obtain ⟨d', rfl⟩ | ⟨m', hm'⟩ := a'.float_or_integer
    · exact .inl ⟨d, d', rfl, rfl, exact_float_inj.1 h⟩
    · rw [isFloat_of_exactInt? hm'] at hkind
      cases hkind
  · obtain ⟨d', rfl⟩ | ⟨m', hm'⟩ := a'.float_or_integer
    · rw [isFloat_of_exactInt? hm] at hkind
      cases hkind
    · exact .inr ⟨m, hm, exactInt?_congr h hm hm' ▸ hm'⟩

theorem toInt?_of_same_kind (hkind : a.isFloat = a'.isFloat) (h : a.exact = a'.exact) : a.toInt? = a'.toInt? := by
  obtain ⟨d, d', rfl, rfl, hvalue⟩ | ⟨m, hm, hm'⟩ := same_kind_cases hkind h
  · exact smallInt?_congr hvalue
  · rw [toInt?_of_exactInt? hm, toInt?_of_exactInt? hm']

/-- Equal numbers that are kept alike are the same integer of the range, or none. -/
theorem filter_toInt?_congr (hkept : KeptAlike range a a') (h : a.exact = a'.exact) :
    a.toInt?.filter range = a'.toInt?.filter range := by
  have hleads : ∀ {a a' : Number} {i : Int}, KeptAlike range a a' → a.exact = a'.exact →
      a.toInt? = some i ∧ range i = true → a'.toInt? = some i ∧ range i = true := by
    rintro a a' i (hkind | hle) h ⟨hi, hrange⟩
    · exact ⟨toInt?_of_same_kind hkind h ▸ hi, hrange⟩
    · have hvalue := exact_of_toInt? hi
      exact ⟨toInt?_of_exact (h ▸ hvalue) (hle i hvalue hrange), hrange⟩
  ext i
  rw [Option.filter_eq_some_iff, Option.filter_eq_some_iff]
  exact ⟨hleads hkept h, hleads (hkept.symm h) h.symm⟩

theorem toUnsigned?_eq (a : Number) : a.toUnsigned? = (a.toInt?.filter fitsUnsigned).map Int.toNat := by
  rw [toUnsigned?]
  cases a.toInt? with
  | none => rfl
  | some i =>
    simp only [Option.filter]
    split <;> rfl

theorem toSigned?_eq (a : Number) : a.toSigned? = a.toInt?.filter fitsSigned := by
  rw [toSigned?]
  cases a.toInt? with
  | none => rfl
  | some i => rfl

theorem filter_anyInteger (x : Option Int) : x.filter anyInteger = x := by
  cases x <;> rfl

theorem toInt?_congr (hkept : KeptAlike anyInteger a a') (h : a.exact = a'.exact) : a.toInt? = a'.toInt? := by
  rw [← filter_anyInteger a.toInt?, ← filter_anyInteger a'.toInt?, filter_toInt?_congr hkept h]

/-- The integer that is written in a radix: the value without its fraction. -/
def wholePart? : Number → Option Int
  | .float d => smallInt? d.trunc
  | n => n.exactInt?

theorem radixText?_eq (radix : Nat) (a : Number) : a.radixText? radix =
    a.wholePart?.map fun i => String.ofList ((if i < 0 then ['-'] else []) ++ natInRadix radix i.natAbs) := by
  cases a <;> rfl

theorem wholePart?_of_exactInt? (ha : a.exactInt? = some m) : a.wholePart? = some m := by
  cases a with
  | float d => cases ha
  | _ => exact ha

theorem value_trunc_congr (h : d.value = d'.value) : d.trunc.value = d'.trunc.value := by
  simp only [Double.trunc, Double.mapFinite, ← h]
  cases hd : d.value with
  | finite r => rfl
  | _ => exact h

/-- Nothing is cut off an integer that a word is trusted with. -/
theorem wholePart?_of_exact (h : a.exact = .finite m) (hle : m.natAbs ≤ safeInteger.natAbs) :
    a.wholePart? = some m := by
  obtain ⟨d, rfl⟩ | ⟨i, hi⟩ := a.float_or_integer
  · have hd := exact_float_eq_finite_iff.1 h
    refine smallInt?_eq_some_iff.2 ⟨?_, hle⟩
    rw [Double.trunc, Double.mapFinite, hd]
    dsimp only
    rw [Rat.num_intCast, Rat.den_intCast, Nat.cast_one, Int.tdiv_one, Double.ofInt_eq, Double.value_ofRat ⟨d, hd⟩]
  · rw [exact_of_exactInt? hi, Exact.finite.injEq, Int.cast_inj] at h
    rw [wholePart?_of_exactInt? hi, h]

theorem wholePart?_congr (hkept : KeptAlike anyInteger a a') (h : a.exact = a'.exact) :
    a.wholePart? = a'.wholePart? := by
  have hwhole : ∀ {i : Int}, (∀ i : Int, a.exact = .finite i → anyInteger i = true → i.natAbs ≤ safeInteger.natAbs) →
      a.exact = .finite i → a.wholePart? = a'.wholePart? := fun hle hi => by
    rw [wholePart?_of_exact hi (hle _ hi rfl), wholePart?_of_exact (h ▸ hi) (hle _ hi rfl)]
  have hsame : a.isFloat = a'.isFloat → a.wholePart? = a'.wholePart? := fun hkind => by
    obtain ⟨d, d', rfl, rfl, hvalue⟩ | ⟨m, hm, hm'⟩ := same_kind_cases hkind h
    · exact smallInt?_congr (value_trunc_congr hvalue)
    · rw [wholePart?_of_exactInt? hm, wholePart?_of_exactInt? hm']
  obtain hkind | hle := hkept
  · exact hsame hkind
  · obtain ⟨d, rfl⟩ | ⟨m, hm⟩ := a.float_or_integer
    · obtain ⟨d', rfl⟩ | ⟨m', hm'⟩ := a'.float_or_integer
      · exact hsame rfl
      · exact hwhole hle (h.trans (exact_of_exactInt? hm'))
    · exact hwhole hle (exact_of_exactInt? hm)

/-! ## Remainders -/

theorem modulo_congr (hkept : KeptAlike anyInteger a a') (hkept' : KeptAlike anyInteger b b') (ha : a.exact = a'.exact)
    (hb : b.exact = b'.exact) : a.modulo b = a'.modulo b' := by
  simp only [modulo, isZero_congr hb, isInteger_congr ha, isInteger_congr hb, toInt?_congr hkept ha,
    toInt?_congr hkept' hb]

/-- Remainders of equal numbers are the same, as long as no operand is out of range. -/
theorem modulo_congr_of_in_range (ha : a.exact = a'.exact) (hb : b.exact = b'.exact)
    (h : a.modulo b ≠ .error .moduloRange) (h' : a'.modulo b' ≠ .error .moduloRange) : a.modulo b = a'.modulo b' := by
  have hvalue : ∀ {a a' : Number} {i i' : Int}, a.exact = a'.exact → a.toInt? = some i → a'.toInt? = some i' →
      i = i' := fun h hi hi' => exact_finite_inj (exact_of_toInt? hi) (h.trans (exact_of_toInt? hi'))
  simp only [modulo, isZero_congr hb, isInteger_congr ha, isInteger_congr hb] at h h' ⊢
  split
  · rfl
  · next hzero =>
    rw [if_neg hzero] at h h'
    split
    · rfl
    · next hinteger =>
      rw [if_neg hinteger] at h h'
      split at h
      · next x y hx hy =>
        split at h'
        · next x' y' hx' hy' => rw [hvalue ha hx hx', hvalue hb hy hy']
        · exact absurd rfl h'
      · exact absurd rfl h

/-! ## Exact and rounded results -/

/-- An operation computes integers exactly and everything else in words, where it gives equal results for words of one
value, and the exact result for integers if that is the value of a word. -/
structure Computes (op : Number → Number → Number) (exactly : Int → Int → Int) (inWords : Double → Double → Double) :
    Prop where
  integers {a b : Number} {m n : Int} :
    a.exactInt? = some m → b.exactInt? = some n → op a b = ofInt (exactly m n)
  words {a b : Number} : exactPair? a b = none → op a b = ofDouble (inWords a.toDouble b.toDouble)
  congr {d d' e e' : Double} :
    d.value = d'.value → e.value = e'.value → (inWords d e).value = (inWords d' e').value
  exact {d e : Double} {m n : Int} : d.value = .finite m → e.value = .finite n → Representable (exactly m n) →
    (inWords d e).value = .finite (exactly m n)

/-- Where one pair of numbers is computed exactly and the other in words, a condition holds for the two integers. -/
def ComputedAlike (a b a' b' : Number) (condition : Int → Int → Prop) : Prop :=
  (exactPair? a b).isSome = (exactPair? a' b').isSome ∨
    ∃ m n : Int, a.exact = .finite m ∧ b.exact = .finite n ∧ condition m n

/-- The integers and a result are values of words. -/
def RepresentableAll (f : Int → Int → Int) (m n : Int) : Prop :=
  Representable m ∧ Representable n ∧ Representable (f m n)

theorem exactPair?_eq_some_iff : exactPair? a b = some (m, n) ↔ a.exactInt? = some m ∧ b.exactInt? = some n := by
  refine ⟨fun h => ?_, fun h => exactPair?_eq_some h.1 h.2⟩
  rw [exactPair?] at h
  split at h
  · next ha hb =>
    cases h
    exact ⟨ha, hb⟩
  · cases h

variable {op : Number → Number → Number} {f : Int → Int → Int} {g : Double → Double → Double}

/-- What an operation gives for integers is worth the exact result, if that is the value of a word. -/
theorem Computes.exact_op (hop : Computes op f g) (ha : a.exact = .finite m) (hb : b.exact = .finite n)
    (h : RepresentableAll f m n) : (op a b).exact = .finite (f m n) := by
  obtain ⟨hm, hn, hf⟩ := h
  cases hpair : exactPair? a b with
  | none =>
    rw [hop.words hpair, exact_ofDouble]
    exact exact_float_eq_finite_iff.2 (hop.exact (value_toDouble ha hm) (value_toDouble hb hn) hf)
  | some pair =>
    obtain ⟨ha', hb'⟩ := exactPair?_eq_some_iff.1 (hpair : exactPair? a b = some (pair.1, pair.2))
    rw [hop.integers ha' hb', exact_ofInt, exact_finite_inj (exact_of_exactInt? ha') ha,
      exact_finite_inj (exact_of_exactInt? hb') hb]

/-- Pairs of equal numbers that are computed alike are both computed in words, or are the same integers, or are worth
integers for which the condition holds. -/
theorem ComputedAlike.cases {p : Int → Int → Prop} (h : ComputedAlike a b a' b' p) (ha : a.exact = a'.exact)
    (hb : b.exact = b'.exact) :
    (exactPair? a b = none ∧ exactPair? a' b' = none) ∨
    (∃ m n, (a.exactInt? = some m ∧ b.exactInt? = some n) ∧ a'.exactInt? = some m ∧ b'.exactInt? = some n) ∨
    ∃ m n : Int, (a.exact = .finite m ∧ b.exact = .finite n) ∧ (a'.exact = .finite m ∧ b'.exact = .finite n) ∧ p m n := by
  obtain hsame | ⟨m, n, hm, hn, hp⟩ := h
  · cases hpair : exactPair? a b with
    | none =>
      rw [hpair, Option.isSome_none, eq_comm, Option.isSome_eq_false_iff, Option.isNone_iff_eq_none] at hsame
      exact .inl ⟨rfl, hsame⟩
    | some pair =>
      rw [hpair, Option.isSome_some, eq_comm, Option.isSome_iff_exists] at hsame
      obtain ⟨pair', hpair'⟩ := hsame
      obtain ⟨hm, hn⟩ := exactPair?_eq_some_iff.1 (hpair : exactPair? a b = some (pair.1, pair.2))
      obtain ⟨hm', hn'⟩ := exactPair?_eq_some_iff.1 (hpair' : exactPair? a' b' = some (pair'.1, pair'.2))
      rw [← exactInt?_congr ha hm hm'] at hm'
      rw [← exactInt?_congr hb hn hn'] at hn'
      exact .inr (.inl ⟨_, _, ⟨hm, hn⟩, hm', hn'⟩)
  · exact .inr (.inr ⟨m, n, ⟨hm, hn⟩, ⟨ha ▸ hm, hb ▸ hn⟩, hp⟩)

/-- Pairs of equal numbers that are computed alike give equal results. -/
theorem Computes.op_congr (hop : Computes op f g) (ha : a.exact = a'.exact) (hb : b.exact = b'.exact)
    (h : ComputedAlike a b a' b' (RepresentableAll f)) : (op a b).cmp (op a' b') = .eq := by
  rw [cmp_eq_iff]
  obtain ⟨hpair, hpair'⟩ | ⟨m, n, ⟨hm, hn⟩, hm', hn'⟩ | ⟨m, n, ⟨hm, hn⟩, ⟨hm', hn'⟩, hall⟩ := h.cases ha hb
  · rw [hop.words hpair, hop.words hpair']
    exact exact_ofDouble_congr (hop.congr (value_toDouble_congr ha) (value_toDouble_congr hb))
  · rw [hop.integers hm hn, hop.integers hm' hn']
  · rw [hop.exact_op hm hn hall, hop.exact_op hm' hn' hall]

theorem computes_add : Computes add (· + ·) Double.add where
  integers := add_eq
  words h := by simp only [add, h]
  congr := Double.value_add_congr
  exact hd he h := by
    rw [Int.cast_add] at h ⊢
    exact Double.value_add hd he h

theorem computes_mul : Computes mul (· * ·) Double.mul where
  integers := mul_eq
  words h := by simp only [mul, h]
  congr := Double.value_mul_congr
  exact hd he h := by
    rw [Int.cast_mul] at h ⊢
    exact Double.value_mul hd he h

theorem sub_words (h : exactPair? a b = none) : a.sub b = ofDouble (a.toDouble.sub b.toDouble) := by
  cases a with
  | unsigned x =>
    cases b with
    | unsigned y => cases (exactPair?_eq_some rfl rfl).symm.trans h
    | _ => simp only [sub, h]
  | signed x =>
    cases b with
    | signed y => cases (exactPair?_eq_some rfl rfl).symm.trans h
    | _ => simp only [sub, h]
  | _ => simp only [sub, h]

theorem computes_sub : Computes sub (· - ·) Double.sub where
  integers := sub_eq
  words := sub_words
  congr := Double.value_sub_congr
  exact hd he h := by
    rw [Int.cast_sub] at h ⊢
    exact Double.value_sub hd he h

/-! ## Quotients -/

/-- Both operations fail in the same way, or both succeed with equal results. -/
def SameAnswer : Except ArithmeticError Number → Except ArithmeticError Number → Prop
  | .ok r, .ok r' => r.cmp r' = .eq
  | .error e, .error e' => e = e'
  | _, _ => False

theorem isZero_of_exact (hb : b.exact = .finite n) (hn : n ≠ 0) : b.isZero = false := by
  rw [← Bool.not_eq_true, isZero_iff_exact, hb, Exact.finite.injEq, Int.cast_eq_zero]
  exact hn

theorem divide_of_zero (hb : b.isZero = true) : a.divide b = .error .divideByZero := if_pos hb

/-- A quotient is computed in words where one of the numbers is a word. -/
theorem divide_of_none (hb : b.isZero = false) (hpair : exactPair? a b = none) :
    a.divide b = .ok (ofDouble (a.toDouble.div b.toDouble)) := by
  simp only [divide, hb, hpair, Bool.false_eq_true, if_false]

/-- A quotient of integers is computed in words where it is no integer. -/
theorem divide_of_not_dvd (ha : a.exact = .finite m) (hb : b.exact = .finite n) (hn : n ≠ 0) (hdvd : ¬n ∣ m) :
    a.divide b = .ok (ofDouble (a.toDouble.div b.toDouble)) := by
  cases hpair : exactPair? a b with
  | none => exact divide_of_none (isZero_of_exact hb hn) hpair
  | some pair =>
    obtain ⟨ha', hb'⟩ := exactPair?_eq_some_iff.1 (hpair : exactPair? a b = some (pair.1, pair.2))
    have hrest : pair.1.tmod pair.2 ≠ 0 := by
      rw [exact_finite_inj (exact_of_exactInt? ha') ha, exact_finite_inj (exact_of_exactInt? hb') hb]
      exact mt Int.dvd_of_tmod_eq_zero hdvd
    simp only [divide, isZero_of_exact hb hn, hpair, if_neg hrest, Bool.false_eq_true, if_false]

/-- A quotient of integers that is an integer is worth it, if it is the value of a word. -/
theorem exact_divide (ha : a.exact = .finite m) (hb : b.exact = .finite n) (hn : n ≠ 0) (hdvd : n ∣ m)
    (h : RepresentableAll Int.tdiv m n) : ∃ r, a.divide b = .ok r ∧ r.exact = .finite (m.tdiv n : Int) := by
  obtain ⟨hm, hn', hq⟩ := h
  cases hpair : exactPair? a b with
  | none =>
    refine ⟨_, divide_of_none (isZero_of_exact hb hn) hpair, ?_⟩
    have hquotient : ((m.tdiv n : Int) : Rat) = m / n := by
      obtain ⟨q, rfl⟩ := hdvd
      rw [Int.mul_tdiv_cancel_left q hn, Int.cast_mul, mul_div_cancel_left₀ _ (Int.cast_ne_zero.2 hn)]
    rw [hquotient] at hq ⊢
    rw [exact_ofDouble, exact_float_eq_finite_iff]
    exact Double.value_div (value_toDouble ha hm) (value_toDouble hb hn') (Int.cast_ne_zero.2 hn) hq
  | some pair =>
    obtain ⟨ha', hb'⟩ := exactPair?_eq_some_iff.1 (hpair : exactPair? a b = some (pair.1, pair.2))
    rw [exact_finite_inj ha (exact_of_exactInt? ha'), exact_finite_inj hb (exact_of_exactInt? hb')] at *
    exact ⟨_, divide_eq ha' hb' hn hdvd, exact_ofInt _⟩

/-- Equal divisors become words of one sign. -/
theorem negative_toDouble_congr (h : b.exact = b'.exact) (hzero : b.isZero = false) (hnan : b.toDouble.value ≠ .nan) :
    b.toDouble.negative = b'.toDouble.negative := by
  have hzero : b.exact ≠ .finite (0 : Int) := by
    rw [Int.cast_zero, ne_eq, ← isZero_iff_exact, hzero]
    exact Bool.false_ne_true
  have hvalue := value_toDouble_congr h
  obtain ⟨d, rfl⟩ | ⟨m, hm⟩ := b.float_or_integer
  · exact Double.negative_congr hvalue (mt exact_float_eq_finite_iff.2 hzero) hnan
  · obtain ⟨d', rfl⟩ | ⟨m', hm'⟩ := b'.float_or_integer
    · exact Double.negative_congr hvalue (hvalue ▸ mt exact_float_eq_finite_iff.2 (h ▸ hzero)) hnan
    · rw [toDouble_of_exactInt? hm, toDouble_of_exactInt? hm', exactInt?_congr h hm hm']

/-- The condition under which an exact quotient is also found in words. -/
def RepresentableQuotient (m n : Int) : Prop := n ∣ m → RepresentableAll Int.tdiv m n

/-- Quotients of equal numbers are equal if they are computed alike. -/
theorem divide_congr (ha : a.exact = a'.exact) (hb : b.exact = b'.exact)
    (h : ComputedAlike a b a' b' RepresentableQuotient) : SameAnswer (a.divide b) (a'.divide b') := by
  cases hzero : b.isZero with
  | true =>
    rw [divide_of_zero hzero, divide_of_zero (isZero_congr hb ▸ hzero)]
    rfl
  | false =>
    have hne : ∀ {n : Int}, b.exact = .finite n → n ≠ 0 := by
      rintro n hn rfl
      rw [Int.cast_zero, ← isZero_iff_exact, hzero] at hn
      cases hn
    have hwords : (ofDouble (a.toDouble.div b.toDouble)).cmp (ofDouble (a'.toDouble.div b'.toDouble)) = .eq :=
      cmp_eq_iff.2 (exact_ofDouble_congr (Double.value_div_congr (value_toDouble_congr ha) (value_toDouble_congr hb)
        (negative_toDouble_congr hb hzero)))
    obtain ⟨hpair, hpair'⟩ | ⟨m, n, ⟨hm, hn⟩, hm', hn'⟩ | ⟨m, n, ⟨hm, hn⟩, ⟨hm', hn'⟩, hall⟩ := h.cases ha hb
    · rwa [divide_of_none hzero hpair, divide_of_none (isZero_congr hb ▸ hzero) hpair']
    · have hn0 := hne (exact_of_exactInt? hn)
      by_cases hdvd : n ∣ m
      · rw [divide_eq hm hn hn0 hdvd, divide_eq hm' hn' hn0 hdvd]
        exact cmp_eq_iff.2 rfl
      · rwa [divide_of_not_dvd (exact_of_exactInt? hm) (exact_of_exactInt? hn) hn0 hdvd,
          divide_of_not_dvd (exact_of_exactInt? hm') (exact_of_exactInt? hn') hn0 hdvd]
    · by_cases hdvd : n ∣ m
      · obtain ⟨r, hr, hvalue⟩ := exact_divide hm hn (hne hn) hdvd (hall hdvd)
        obtain ⟨r', hr', hvalue'⟩ := exact_divide hm' hn' (hne hn) hdvd (hall hdvd)
        rw [hr, hr']
        exact cmp_eq_iff.2 (hvalue.trans hvalue'.symm)
      · rwa [divide_of_not_dvd hm hn (hne hn) hdvd, divide_of_not_dvd hm' hn' (hne hn) hdvd]

theorem SameAnswer.of_eq {x y : Except ArithmeticError Number} (h : x = y) : SameAnswer x y := by
  cases h
  cases x with
  | error e => rfl
  | ok r => exact cmp_eq_iff.2 rfl

/-- Equal numbers are interchangeable as far as words are exact. Whether a number is an integer and whether a division
fails depends on the values alone. The views as an integer, the text in a radix and remainders are the same for numbers
that are kept alike, and sums, differences, products and quotients are equal for pairs that are computed alike. -/
theorem equal_numbers_interchangeable (ha : a.cmp a' = .eq) (hb : b.cmp b' = .eq) :
    a.isInteger = a'.isInteger ∧
    (KeptAlike fitsUnsigned a a' → a.toUnsigned? = a'.toUnsigned?) ∧
    (KeptAlike fitsSigned a a' → a.toSigned? = a'.toSigned?) ∧
    (KeptAlike anyInteger a a' → ∀ radix, a.radixText? radix = a'.radixText? radix) ∧
    (KeptAlike anyInteger a a' → KeptAlike anyInteger b b' → SameAnswer (a.modulo b) (a'.modulo b')) ∧
    (a.modulo b ≠ .error .moduloRange → a'.modulo b' ≠ .error .moduloRange →
      SameAnswer (a.modulo b) (a'.modulo b')) ∧
    (ComputedAlike a b a' b' (RepresentableAll (· + ·)) → (a.add b).cmp (a'.add b') = .eq) ∧
    (ComputedAlike a b a' b' (RepresentableAll (· - ·)) → (a.sub b).cmp (a'.sub b') = .eq) ∧
    (ComputedAlike a b a' b' (RepresentableAll (· * ·)) → (a.mul b).cmp (a'.mul b') = .eq) ∧
    (∀ e, a.divide b = .error e ↔ a'.divide b' = .error e) ∧
    (ComputedAlike a b a' b' RepresentableQuotient → SameAnswer (a.divide b) (a'.divide b')) := by
  rw [cmp_eq_iff] at ha hb
  refine ⟨isInteger_congr ha, fun hkept => ?_, fun hkept => ?_, fun hkept radix => ?_,
    fun hkept hkept' => .of_eq (modulo_congr hkept hkept' ha hb),
    fun h h' => .of_eq (modulo_congr_of_in_range ha hb h h'), computes_add.op_congr ha hb,
    computes_sub.op_congr ha hb, computes_mul.op_congr ha hb, fun e => ?_, divide_congr ha hb⟩
  · rw [toUnsigned?_eq, toUnsigned?_eq, filter_toInt?_congr hkept ha]
  · rw [toSigned?_eq, toSigned?_eq, filter_toInt?_congr hkept ha]
  · rw [radixText?_eq, radixText?_eq, wholePart?_congr hkept ha]
  · rw [divide_eq_error_iff, divide_eq_error_iff, isZero_congr hb]

/-! ### An integer as a word -/

/-- A power of two as an integer and as a floating-point word. -/
def twoTo (exponent : Nat) : Number := .unsigned (UInt64.ofNat (2 ^ exponent))
def wordTwoTo (exponent : Nat) : Number := .float (.ofInt (2 ^ exponent))

/-- As far as words are trusted it does not matter which one is kept. -/
theorem interchangeable_two_to_53 : (twoTo 53).cmp (wordTwoTo 53) = .eq ∧ (twoTo 0).cmp (wordTwoTo 0) = .eq ∧
    (twoTo 53).toUnsigned? = (wordTwoTo 53).toUnsigned? ∧
    SameAnswer ((twoTo 53).modulo (twoTo 0)) ((wordTwoTo 53).modulo (wordTwoTo 0)) ∧
    ((twoTo 53).sub (twoTo 0)).cmp ((wordTwoTo 53).sub (wordTwoTo 0)) = .eq ∧
    SameAnswer ((twoTo 53).divide (twoTo 0)) ((wordTwoTo 53).divide (wordTwoTo 0)) := by
  have hlarge : (twoTo 53).cmp (wordTwoTo 53) = .eq := by decide +kernel
  have hone : (twoTo 0).cmp (wordTwoTo 0) = .eq := by decide +kernel
  have hvalue : (twoTo 53).exact = .finite (2 ^ 53 : Int) := exact_of_exactInt? (by decide)
  have hvalue' : (twoTo 0).exact = .finite (1 : Int) := exact_of_exactInt? (by decide)
  have hkept : ∀ range, KeptAlike range (twoTo 53) (wordTwoTo 53) :=
    fun _ => .inr fun i hi _ => exact_finite_inj hvalue hi ▸ by decide
  have hkept' : ∀ range, KeptAlike range (twoTo 0) (wordTwoTo 0) :=
    fun _ => .inr fun i hi _ => exact_finite_inj hvalue' hi ▸ by decide
  obtain ⟨-, hunsigned, -, -, hmodulo, -, -, hsub, -, -, hdivide⟩ := equal_numbers_interchangeable hlarge hone
  refine ⟨hlarge, hone, hunsigned (hkept _), hmodulo (hkept _) (hkept' _), ?_, ?_⟩
  · exact hsub (.inr ⟨_, _, hvalue, hvalue', Double.representable_of_le (by decide), Double.representable_of_le (by decide),
      Double.representable_of_le (by decide)⟩)
  · exact hdivide (.inr ⟨_, _, hvalue, hvalue', fun _ => ⟨Double.representable_of_le (by decide),
      Double.representable_of_le (by decide), Double.representable_of_le (by decide)⟩⟩)

/-- Beyond that it does: an integer and a word of the same value are told apart by what is computed with them. -/
theorem not_interchangeable_two_to_60 : (twoTo 60).cmp (wordTwoTo 60) = .eq ∧
    ((twoTo 60).add (twoTo 0)).cmp ((wordTwoTo 60).add (twoTo 0)) = .gt ∧
    (twoTo 60).modulo (twoTo 0) = .ok 0 ∧ (wordTwoTo 60).modulo (twoTo 0) = .error .moduloRange ∧
    (twoTo 60).toUnsigned? = some (2 ^ 60) ∧ (wordTwoTo 60).toUnsigned? = none := by
  decide +kernel

end PolicyEngine.Number
