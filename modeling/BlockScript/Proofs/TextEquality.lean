import Mathlib
import BlockScript.Proofs.Alongside
import BlockScript.Proofs.FloatModel
import BlockScript.Proofs.ShortestDecimals
/-!
Equality is equality of text.

Scripts compare numbers as numbers, and all else by value or by text. Two numbers have one text just
when they are equal, the two zeros included, and values that are the same have the same text. So no
way to compare values ever tells apart what another takes for equal, and text decides.
-/

namespace BlockScript

-- What is known of unpacking comes with the whole library only, hence the import.
open Float.Model Float.Model.UnpackedFloat

namespace Binary

/-- A float as the digits are computed from it, and as its own operations see it. -/
def Matches (b : Binary) : UnpackedFloat → Prop
  | .zero _ => b.mantissa = 0
  | .finite _ mantissa exponent _ => b.mantissa = mantissa ∧ b.exponent = exponent
  | .infinity _ | .notANumber => True

/-- The fields of a float. -/
theorem fields (x : Float) :
    (@unpackMantissa Format.binary64 x.toModel.toBits.toBitVec).toNat =
      x.toBits.toNat % Nat.pow 2 52 ∧
    (@unpackExponent Format.binary64 x.toModel.toBits.toBitVec).toNat =
      x.toBits.toNat / Nat.pow 2 52 % Nat.pow 2 11 := by
  constructor
  · rw [unpackMantissa_def, BitVec.extractLsb'_toNat]
    rfl
  · rw [unpackExponent_def, BitVec.extractLsb'_toNat, Nat.shiftRight_eq_div_pow]
    rfl

theorem matches_unpack (x : Float) : (ofFloat x).Matches x.toModel.unpack := by
  obtain ⟨mantissa, exponent⟩ := fields x
  rw [ofFloat, ← mantissa, ← exponent]
  unfold Float.Model.unpack UnpackedFloat.unpack
  dsimp only
  by_cases special : @unpackExponent Format.binary64 x.toModel.toBits.toBitVec = -1#11
  · rw [if_pos special]
    by_cases infinite : @unpackMantissa Format.binary64 x.toModel.toBits.toBitVec = 0#52
    · rw [if_pos infinite]
      trivial
    · rw [if_neg infinite]
      trivial
  rw [if_neg special]
  by_cases least : @unpackExponent Format.binary64 x.toModel.toBits.toBitVec = 0#11
  · have biased : (@unpackExponent Format.binary64 x.toModel.toBits.toBitVec).toNat = 0 :=
      congrArg BitVec.toNat least
    rw [if_pos least, if_pos biased]
    split
    · next zero => exact congrArg BitVec.toNat zero
    · refine ⟨rfl, ?_⟩
      rw [least]
      rfl
  · have biased : (@unpackExponent Format.binary64 x.toModel.toBits.toBitVec).toNat ≠ 0 :=
      fun zero => least (BitVec.eq_of_toNat_eq zero)
    rw [if_neg least, if_neg biased]
    exact ⟨(toNat_one_append _).symm, rfl⟩

end Binary

theorem unpack_injective {x y : Float} (same : x.toModel.unpack = y.toModel.unpack) : x = y := by
  have bits := (unpack_inj_of_valid x.toModel.valid y.toModel.valid).mp same
  exact Float.toBits_inj.mp (UInt64.toBitVec_inj.mp bits)

/-- Below zero are the numbers of negative sign other than zero. -/
theorem unpacked_lt_zero_iff (u : UnpackedFloat) :
    UnpackedFloat.lt u (.zero .positive) = true ↔ u = .infinity .negative ∨
      ∃ m e, ∃ pos : 0 < m, u = .finite .negative m e pos := by
  cases u with
  | infinity sign => cases sign <;> simp [UnpackedFloat.lt, UnpackedFloat.compare]
  | notANumber => simp [UnpackedFloat.lt, UnpackedFloat.compare]
  | zero sign => simp [UnpackedFloat.lt, UnpackedFloat.compare]
  | finite sign m e pos => cases sign <;> simp [UnpackedFloat.lt, UnpackedFloat.compare, pos]

/-- A finite number is known by its magnitude and its sign, but for the sign of zero. -/
theorem Binary.Matches.eq_or_zeros {b : Binary} {u v : UnpackedFloat} (left : b.Matches u)
    (right : b.Matches v) (finite : u.isFinite = true) (also : v.isFinite = true)
    (signs : UnpackedFloat.lt u (.zero .positive) = true ↔
      UnpackedFloat.lt v (.zero .positive) = true) :
    u = v ∨ (u = .zero .positive ∧ v = .zero .negative) ∨
      (u = .zero .negative ∧ v = .zero .positive) := by
  rw [unpacked_lt_zero_iff, unpacked_lt_zero_iff] at signs
  cases u with
  | infinity => cases finite
  | notANumber => cases finite
  | zero sign =>
    cases v with
    | infinity => cases also
    | notANumber => cases also
    | zero other => cases sign <;> cases other <;> simp
    | finite other m e pos =>
      have none : b.mantissa = 0 := left
      have some : b.mantissa = m := right.1
      omega
  | finite sign m e pos =>
    cases v with
    | infinity => cases also
    | notANumber => cases also
    | zero other =>
      have none : b.mantissa = 0 := right
      have some : b.mantissa = m := left.1
      omega
    | finite other n f some =>
      obtain ⟨mantissa, exponent⟩ := left
      obtain ⟨mantissa', exponent'⟩ := right
      subst mantissa exponent
      subst mantissa' exponent'
      cases sign <;> cases other <;> simp_all

namespace Value

/-- The text of a number but for its sign. -/
def magnitudeChars (x : Float) : List Char :=
  if x.isInf then ['i', 'n', 'f'] else (decimal x).positional

/-- The text of a number that is one. -/
theorem toList_numberText {x : Float} (number : x.isNaN = false) :
    (numberText x).toList = (if x < 0.0 then ['-'] else []) ++ magnitudeChars x := by
  simp only [numberText, number, Bool.false_eq_true, if_false, magnitudeChars]
  split <;> split <;> simp

theorem positional_head (d : Decimal) : ∃ c cs, d.positional = c :: cs ∧ c.isDigit = true := by
  obtain ⟨whole, fraction, laid⟩ := d.exists_laidOut
  obtain ⟨c, cs, rfl⟩ := List.exists_cons_of_ne_nil laid.digits.nonempty
  exact ⟨c, cs ++ Decimal.pointed fraction, laid.text, laid.digits.digits c List.mem_cons_self⟩

theorem magnitudeChars_head (x : Float) :
    ∃ c cs, magnitudeChars x = c :: cs ∧ (c = 'i' ∨ c.isDigit = true) := by
  rw [magnitudeChars]
  split
  · exact ⟨_, _, rfl, .inl rfl⟩
  · obtain ⟨c, cs, text, digit⟩ := positional_head (decimal x)
    exact ⟨c, cs, text, .inr digit⟩

/-- The text tells the sign and the magnitude. -/
theorem signed_inj {x y : Float} (hx : x.isNaN = false) (hy : y.isNaN = false)
    (same : numberText x = numberText y) :
    (x < 0.0 ↔ y < 0.0) ∧ magnitudeChars x = magnitudeChars y := by
  obtain ⟨c, cs, left, first⟩ := magnitudeChars_head x
  obtain ⟨d, ds, right, second⟩ := magnitudeChars_head y
  have unsigned {c : Char} (h : c = 'i' ∨ c.isDigit = true) : c ≠ '-' := by
    rintro rfl
    simp at h
  have lists := congrArg String.toList same
  rw [toList_numberText hx, toList_numberText hy, left, right] at lists
  rw [left, right]
  by_cases below : x < 0.0
  · by_cases under : y < 0.0
    · rw [if_pos below, if_pos under] at lists
      exact ⟨iff_of_true below under, List.tail_eq_of_cons_eq lists⟩
    · rw [if_pos below, if_neg under] at lists
      exact absurd (List.head_eq_of_cons_eq lists).symm (unsigned second)
  · by_cases under : y < 0.0
    · rw [if_neg below, if_pos under] at lists
      exact absurd (List.head_eq_of_cons_eq lists) (unsigned first)
    · rw [if_neg below, if_neg under] at lists
      exact ⟨iff_of_false below under, lists⟩

theorem isInf_eq_of_magnitudeChars_eq {x y : Float} (same : magnitudeChars x = magnitudeChars y) :
    x.isInf = y.isInf := by
  have apart (d : Decimal) : ['i', 'n', 'f'] ≠ d.positional := by
    obtain ⟨c, cs, text, digit⟩ := positional_head d
    rw [text]
    rintro ⟨⟩
    cases digit
  simp only [magnitudeChars] at same
  cases left : x.isInf <;> cases right : y.isInf
  · rfl
  · rw [if_neg (by simp [left]), if_pos right] at same
    exact absurd same.symm (apart _)
  · rw [if_pos left, if_neg (by simp [right])] at same
    exact absurd same (apart _)
  · rfl

/-- The zeros have one text. -/
theorem numberText_of_zero {x : Float} {sign : Sign} (zero : x.toModel.unpack = .zero sign) :
    numberText x = "0" := by
  have number : x.isNaN = false := by
    change x.toModel.unpack.isNaN = false
    rw [zero]
    rfl
  have finite : x.isInf = false := by
    change x.toModel.unpack.isInf = false
    rw [zero]
    rfl
  have unsigned : ¬x < 0.0 := by
    rw [float_lt_zero_iff, zero]
    cases sign <;> simp [UnpackedFloat.lt, UnpackedFloat.compare]
  have mantissa : (Binary.ofFloat x).mantissa = 0 := by
    have fields := Binary.matches_unpack x
    rwa [zero] at fields
  have digits : decimal x = ⟨0, 0⟩ := by
    simp [decimal, Binary.whole?, mantissa, integerLimit]
  rw [← String.toList_inj, toList_numberText number, if_neg unsigned, magnitudeChars, finite,
    digits]
  rfl

theorem isNaN_eq_false_iff {x : Float} : x.isNaN = false ↔ x.toModel.unpack ≠ .notANumber := by
  change x.toModel.unpack.isNaN = false ↔ _
  cases x.toModel.unpack <;> simp [UnpackedFloat.isNaN]

theorem isFinite_unpack {x : Float} (number : x.isNaN = false) (bounded : x.isInf = false) :
    x.toModel.unpack.isFinite = true := by
  have nan : x.toModel.unpack.isNaN = false := number
  have inf : x.toModel.unpack.isInf = false := bounded
  cases shape : x.toModel.unpack with
  | infinity => rw [shape] at inf; cases inf
  | notANumber => rw [shape] at nan; cases nan
  | zero => rfl
  | finite => rfl

/-- Infinities of one sign are equal. -/
theorem unpack_eq_of_isInf {x y : Float} (left : x.isInf = true) (right : y.isInf = true)
    (signs : x < 0.0 ↔ y < 0.0) : x.toModel.unpack = y.toModel.unpack := by
  have infinite {z : Float} (h : z.isInf = true) : ∃ sign, z.toModel.unpack = .infinity sign := by
    have inf : z.toModel.unpack.isInf = true := h
    cases shape : z.toModel.unpack with
    | infinity sign => exact ⟨sign, rfl⟩
    | notANumber | zero | finite => rw [shape] at inf; cases inf
  obtain ⟨sign, one⟩ := infinite left
  obtain ⟨other, two⟩ := infinite right
  rw [float_lt_zero_iff, float_lt_zero_iff, one, two, unpacked_lt_zero_iff,
    unpacked_lt_zero_iff] at signs
  rw [one, two]
  cases sign <;> cases other <;> simp_all

/-- Numbers have one text just when they are equal. -/
theorem numberText_eq_iff {x y : Float} (hx : x.isNaN = false) (hy : y.isNaN = false) :
    numberText x = numberText y ↔ (x == y) = true := by
  change _ ↔ x.toModel.unpack.beq y.toModel.unpack = true
  rw [beq_iff_ne_notANumber_and_eq]
  constructor
  · intro same
    refine ⟨isNaN_eq_false_iff.mp hx, isNaN_eq_false_iff.mp hy, ?_⟩
    obtain ⟨signs, magnitudes⟩ := signed_inj hx hy same
    have kinds := isInf_eq_of_magnitudeChars_eq magnitudes
    cases infinite : x.isInf with
    | true => exact .inl (unpack_eq_of_isInf infinite (kinds ▸ infinite) signs)
    | false =>
      have bounded : y.isInf = false := kinds ▸ infinite
      have digits : (decimal x).positional = (decimal y).positional := by
        simpa [magnitudeChars, infinite, bounded] using magnitudes
      rw [float_lt_zero_iff, float_lt_zero_iff] at signs
      have fields := Binary.matches_unpack x
      rw [ofFloat_eq_of_positional_eq digits] at fields
      exact fields.eq_or_zeros (Binary.matches_unpack y) (isFinite_unpack hx infinite)
        (isFinite_unpack hy bounded) signs
  · rintro ⟨-, -, same | ⟨one, two⟩ | ⟨one, two⟩⟩
    · rw [unpack_injective same]
    · rw [numberText_of_zero one, numberText_of_zero two]
    · rw [numberText_of_zero one, numberText_of_zero two]

theorem numberText_eq_NaN_iff (x : Float) : numberText x = "NaN" ↔ x.isNaN = true := by
  constructor
  · intro text
    by_contra number
    have number := Bool.eq_false_iff.mpr number
    obtain ⟨c, cs, chars, first⟩ := magnitudeChars_head x
    have lists := congrArg String.toList text
    rw [toList_numberText number, chars] at lists
    by_cases below : x < 0.0
    · rw [if_pos below] at lists
      exact absurd (List.head_eq_of_cons_eq lists) (by decide)
    · rw [if_neg below] at lists
      rw [List.head_eq_of_cons_eq lists] at first
      exact absurd first (by decide)
  · intro nan
    rw [numberText, if_pos nan]

theorem isNaN_of_eq {x y : Float} (same : (x == y) = true) :
    x.isNaN = false ∧ y.isNaN = false := by
  have equal : x.toModel.unpack.beq y.toModel.unpack = true := same
  rw [beq_iff_ne_notANumber_and_eq] at equal
  obtain ⟨left, right, -⟩ := equal
  exact ⟨isNaN_eq_false_iff.mpr left, isNaN_eq_false_iff.mpr right⟩

/-- Being equal as numbers and having one text differ only on the numbers that are none. -/
theorem beq_eq_numberText {x y : Float} (numbers : ¬(x.isNaN = true ∧ y.isNaN = true)) :
    (x == y) = decide (numberText x = numberText y) := by
  rw [Bool.eq_iff_iff, decide_eq_true_iff]
  by_cases both : x.isNaN = false ∧ y.isNaN = false
  · exact (numberText_eq_iff both.1 both.2).symm
  · refine iff_of_false (fun same => both (isNaN_of_eq same)) fun text => ?_
    have one : x.isNaN = true ↔ y.isNaN = true := by
      rw [← numberText_eq_NaN_iff, ← numberText_eq_NaN_iff, text]
    cases left : x.isNaN <;> cases right : y.isNaN <;> simp_all

mutual

/-- Values that are the same have one text. -/
theorem text_eq_of_same : (a b : Value) → a.same b = true → a.text = b.text
  | .null, .null, _ => rfl
  | .bool a, .bool b, same => by
    have eq : a = b := by simpa [Value.same] using same
    rw [eq]
  | .number x, .number y, same => by
    obtain ⟨left, right⟩ := isNaN_of_eq same
    exact (numberText_eq_iff left right).mpr same
  | .string a, .string b, same => by
    have eq : a = b := by simpa [Value.same] using same
    rw [eq]
  | .list as, .list bs, same => by
    have items := texts_eq_of_sameItems as bs same
    rw [text, text, items]

theorem texts_eq_of_sameItems : (as bs : List Value) → same.sameItems as bs = true →
    text.texts as = text.texts bs
  | [], [], _ => rfl
  | a :: as, b :: bs, both => by
    rw [same.sameItems, Bool.and_eq_true] at both
    have first := text_eq_of_same a b both.1
    have rest := texts_eq_of_sameItems as bs both.2
    rw [text.texts, text.texts, first, rest]

end

/-- Whether a value is the number that is none. -/
def isNaN : Value → Bool
  | .number x => x.isNaN
  | _ => false

end Value

namespace Kinds

variable {β ε : Type}

theorem equalValues_eq_text {a b : Value} (numbers : ¬(a.isNaN = true ∧ b.isNaN = true)) :
    equalValues a b = decide (a.text = b.text) := by
  have flat (a b : Value) : (a.same b || a.text == b.text) = decide (a.text = b.text) := by
    rw [Bool.eq_iff_iff, Bool.or_eq_true, beq_iff_eq, decide_eq_true_iff]
    exact or_iff_right_of_imp (Value.text_eq_of_same a b)
  unfold equalValues
  split
  · exact Value.beq_eq_numberText numbers
  · exact flat a b

/-- A comparing block evaluates its two inputs, the first one first, and compares their values. -/
theorem run_comparisonBlock {env : Environment β ε} {h : Header β} {inputs : Inputs β}
    {op : String} (operator : h.fieldText "OP" = .ok op) {a b : Value} {s t r : RunState}
    {w v u : World ε} (first : env.run (inputs.required h "A") s w = (.result (.ok a), t, v))
    (second : env.run (inputs.required h "B") t v = (.result (.ok b), r, u)) :
    env.run (comparisonBlock h inputs) s w =
      (.result ((comparison h op a b).map Value.bool), r, u) := by
  rw [comparisonBlock, operator]
  change env.run (inputs.required h "A" >>= _) s w = _
  rw [Environment.run_bind, first]
  change env.run (inputs.required h "B" >>= _) t v = _
  rw [Environment.run_bind, second]
  dsimp only
  cases comparison h op a b <;> rfl

/-- Scripts take values for equal just when their texts are. Two numbers compare as numbers, all
else by value or by text, and yet text decides, but between numbers that are none. So equality is an
equivalence on the other values, and the opposite operator is its negation everywhere. -/
theorem equality_is_of_text (h : Header β) :
    (∀ a b : Value, ¬(a.isNaN = true ∧ b.isNaN = true) →
      comparison h "EQ" a b = .ok (decide (a.text = b.text))) ∧
    (∀ a b : Value, comparison h "NEQ" a b = (comparison h "EQ" a b).map not) ∧
    (Equivalence fun a b : { v : Value // v.isNaN = false } =>
      comparison h "EQ" a b = .ok true) ∧
    ∀ (env : Environment β ε) (inputs : Inputs β) (op : String) (a b : Value) (s t r : RunState)
      (w v u : World ε), h.fieldText "OP" = .ok op →
      env.run (inputs.required h "A") s w = (.result (.ok a), t, v) →
      env.run (inputs.required h "B") t v = (.result (.ok b), r, u) →
      env.run (comparisonBlock h inputs) s w =
        (.result ((comparison h op a b).map Value.bool), r, u) := by
  have decided (a b : Value) (numbers : ¬(a.isNaN = true ∧ b.isNaN = true)) :
      comparison h "EQ" a b = .ok (decide (a.text = b.text)) :=
    congrArg Except.ok (equalValues_eq_text numbers)
  have equal (a b : { v : Value // v.isNaN = false }) :
      comparison h "EQ" a b = .ok true ↔ a.val.text = b.val.text := by
    rw [decided a b (by simp [a.property]), Except.ok.injEq, decide_eq_true_iff]
  refine ⟨decided, fun _ _ => rfl, ⟨fun a => ?_, fun {a b} => ?_, fun {a b c} => ?_⟩,
    fun env inputs op a b s t r w v u operator first second =>
      run_comparisonBlock operator first second⟩
  · exact (equal a a).mpr rfl
  · rw [equal, equal]
    exact Eq.symm
  · rw [equal, equal, equal]
    exact Eq.trans

/-- A list is not the same as itself for the number in it that is none. It equals its text still,
and so itself. -/
theorem list_equals_its_text :
    let h : Header Stock := ⟨"logic_compare", none, .comparison, [("OP", .string "EQ")], []⟩
    let items : Value := .list [.number (-0.0), .null, .number (0.0 / 0.0)]
    let inputs : Inputs Stock := [("A", pure items), ("B", pure (.string "0,,NaN"))]
    let env : Environment Stock Unit := .alone (.bare [])
    let w : World Unit := { peers := (), origin := ⟨0, 0⟩ }
    let s := Script.initial ⟨.mk h [] none, {}⟩ env w
    env.run (comparisonBlock h inputs) s w = (.result (.ok (.bool true)), s, w) ∧
      items.same items = false ∧ comparison h "EQ" items items = .ok true := by
  intro h items inputs env w s
  have written : items.text = "0,,NaN" := by decide +kernel
  obtain ⟨equal, -, equivalence, compares⟩ := equality_is_of_text (ε := Unit) h
  have one := equal items (.string "0,,NaN") (by simp [items, Value.isNaN])
  have ran := compares env inputs "EQ" items (.string "0,,NaN") s s s w w w rfl rfl rfl
  rw [one, written] at ran
  exact ⟨ran, by decide +kernel, equivalence.refl ⟨items, rfl⟩⟩

end Kinds

end BlockScript
