import BlockScript.Proofs.NearestFloats
import BlockScript.Proofs.TextReading
/-!
The text of a number reads back as the number.

The digits of a number round to it, and digits are read as the float they round to. The sign is kept
but for that of zero, and zeros are equal.
-/

namespace BlockScript

open Float.Model Float.Model.UnpackedFloat

/-- Nothing is trimmed from a text without blanks. -/
theorem Text.trim_of_no_blank {s : String} (plain : ∀ c ∈ s.toList, isBlank c = false) :
    trim s = s.toList := by
  have kept {cs : List Char} (plain : ∀ c ∈ cs, isBlank c = false) : cs.dropWhile isBlank = cs := by
    cases cs with
    | nil => rfl
    | cons c cs => simp [plain c List.mem_cons_self]
  rw [trim, dropBlanksRight, kept plain, kept (by simpa using plain), List.reverse_reverse]

namespace Decimal

theorem unsigned?_positional {d : Decimal} {whole fraction : List Char}
    (laid : d.LaidOut whole fraction) :
    unsigned? d.positional = some (nearest (ofDigits (whole ++ fraction)) (-fraction.length)) := by
  have stops : ∀ c ∈ (pointed fraction).head?, c.isDigit = false := by
    cases fraction <;> simp [pointed]
  obtain ⟨taken, dropped⟩ := span_digits laid.digits.digits stops
  rw [laid.text]
  unfold unsigned?
  simp only [taken, dropped, laid.digits.isEmpty, Bool.false_and, Bool.false_eq_true, ↓reduceIte]
  cases fraction with
  | nil => simp [pointed, exponent?]
  | cons c cs =>
    have ends : ∀ d ∈ ([] : List Char).head?, d.isDigit = false := by simp
    have digits := span_digits laid.decimals ends
    rw [List.append_nil] at digits
    simp [pointed, digits, exponent?]

/-- What begins with a digit is no name of a number. -/
theorem named?_of_digit {c : Char} (digit : c.isDigit) (cs : List Char) :
    named? (c :: cs) = none := by
  have small : c.toNat ≤ 57 := (Char.isDigit_iff_toNat.mp digit).2
  have lower : c.toLower = c := by
    apply Char.toLower_eq_of_not_isUpper
    simp only [Char.isUpper, decide_eq_true_eq]
    rintro ⟨upper, -⟩
    have large : 65 ≤ c.toNat := upper
    omega
  have other (word : String) {d : Char} {ds : List Char} (spelled : word.toList = d :: ds)
      (letter : d.isDigit = false) : String.ofList ((c :: cs).map Char.toLower) ≠ word := by
    intro same
    rw [← same, String.toList_ofList, List.map_cons, lower] at spelled
    rw [List.head_eq_of_cons_eq spelled, letter] at digit
    cases digit
  unfold named?
  rw [if_neg, if_neg]
  · exact other "nan" rfl rfl
  · rintro (inf | infinity)
    · exact other "inf" rfl rfl inf
    · exact other "infinity" rfl rfl infinity

theorem float?_positional {d : Decimal} {y : Float} (read : unsigned? d.positional = some y) :
    float? d.positional = some y ∧ float? ('-' :: d.positional) = some (-y) := by
  obtain ⟨whole, fraction, laid⟩ := d.exists_laidOut
  have unsigned : splitSign d.positional = (false, d.positional) := by
    rw [laid.text]
    exact laid.digits.splitSign _
  have unnamed : named? d.positional = none := by
    obtain ⟨c, cs, text, digit⟩ := Value.positional_head d
    rw [text]
    exact named?_of_digit digit cs
  constructor
  · simp [float?, unsigned, unnamed, read]
  · simp [float?, splitSign, unnamed, read]

end Decimal

namespace Binary

theorem matches_unpacked (b : Binary) (sign : Sign) : b.Matches (b.unpacked sign) := by
  obtain zero | pos := Nat.eq_zero_or_pos b.mantissa
  · rw [unpacked_of_zero zero]
    exact zero
  · rw [unpacked_of_pos pos]
    exact ⟨rfl, rfl⟩

theorem isFinite_unpacked (b : Binary) (sign : Sign) : (b.unpacked sign).isFinite = true := by
  unfold unpacked
  split <;> rfl

theorem unpacked_negative_iff {b : Binary} {sign : Sign} :
    UnpackedFloat.lt (b.unpacked sign) (.zero .positive) = true ↔
      sign = .negative ∧ b.mantissa ≠ 0 := by
  rw [unpacked_lt_zero_iff]
  obtain zero | pos := Nat.eq_zero_or_pos b.mantissa
  · rw [unpacked_of_zero zero]
    simp [zero]
  · rw [unpacked_of_pos pos]
    simp [pos, pos.ne']

/-- A float of the magnitude and the sign of another is equal to it. -/
theorem beq_of_unpacked {x z : Float} (finite : x.toModel.unpack.isFinite = true) {sign : Sign}
    (shape : z.toModel.unpack = (ofFloat x).unpacked sign)
    (signs : sign = .negative ∧ (ofFloat x).mantissa ≠ 0 ↔ x < 0.0) : (z == x) = true := by
  have number {u : UnpackedFloat} (finite : u.isFinite = true) : u ≠ .notANumber := by
    rintro rfl
    cases finite
  have bounded := (ofFloat x).isFinite_unpacked sign
  change z.toModel.unpack.beq x.toModel.unpack = true
  rw [shape, beq_iff_ne_notANumber_and_eq]
  refine ⟨number bounded, number finite, ((ofFloat x).matches_unpacked sign).eq_or_zeros
    (matches_unpack x) bounded finite ?_⟩
  rw [unpacked_negative_iff, signs, float_lt_zero_iff]

theorem mantissa_ne_zero_of_neg {x : Float} (finite : x.toModel.unpack.isFinite = true)
    (below : x < 0.0) : (ofFloat x).mantissa ≠ 0 := by
  obtain ⟨sign, shape⟩ := exists_unpack finite
  rw [float_lt_zero_iff, shape, unpacked_negative_iff] at below
  exact below.2

end Binary

namespace Value

theorem no_blank_magnitudeChars (x : Float) : ∀ c ∈ magnitudeChars x, Text.isBlank c = false := by
  unfold magnitudeChars
  split
  · intro c mem
    simp only [List.mem_cons, List.not_mem_nil, or_false] at mem
    obtain rfl | rfl | rfl := mem <;> rfl
  · obtain ⟨whole, fraction, laid⟩ := (decimal x).exists_laidOut
    intro c mem
    rw [laid.text, List.mem_append] at mem
    obtain before | after := mem
    · exact Text.isBlank_of_isDigit (laid.digits.digits c before)
    · have point : c = '.' ∨ c ∈ fraction := by
        cases fraction with
        | nil => cases after
        | cons d ds => exact List.mem_cons.mp after
      obtain rfl | digit := point
      · rfl
      · exact Text.isBlank_of_isDigit (laid.decimals c digit)

/-- The text of a number is read whole. -/
theorem ofText?_numberText {x : Float} (number : x.isNaN = false) :
    Decimal.ofText? (numberText x) =
      Decimal.float? ((if x < 0.0 then ['-'] else []) ++ magnitudeChars x) := by
  rw [Decimal.ofText?, Text.trim_of_no_blank, toList_numberText number]
  intro c mem
  rw [toList_numberText number, List.mem_append] at mem
  obtain sign | magnitude := mem
  · split at sign
    · rw [List.mem_singleton.mp sign]
      rfl
    · cases sign
  · exact no_blank_magnitudeChars x c magnitude

/-- A finite number but for its sign, as it is read back. -/
theorem exists_magnitude {x : Float} (finite : x.toModel.unpack.isFinite = true) :
    ∃ y, Decimal.unsigned? (decimal x).positional = some y ∧
      y.toModel.unpack = (Binary.ofFloat x).unpacked .positive := by
  obtain ⟨whole, fraction, laid⟩ := (decimal x).exists_laidOut
  refine ⟨_, Decimal.unsigned?_positional laid,
    Decimal.unpack_nearest (Binary.inRange_ofFloat finite) ?_⟩
  have rounds := rounds_decimal x
  rwa [laid.value, div_eq_mul_inv, ← zpow_natCast, ← zpow_neg] at rounds

theorem reads_back_of_finite {x : Float} (number : x.isNaN = false) (bounded : x.isInf = false) :
    ∃ y, Decimal.ofText? (numberText x) = some y ∧ (y == x) = true := by
  have finite := isFinite_unpack number bounded
  obtain ⟨y, read, shape⟩ := exists_magnitude finite
  obtain ⟨unsigned, signed⟩ := Decimal.float?_positional read
  rw [ofText?_numberText number, magnitudeChars, bounded]
  by_cases below : x < 0.0
  · have some := Binary.mantissa_ne_zero_of_neg finite below
    rw [if_pos below]
    exact ⟨-y, signed, Binary.beq_of_unpacked finite
      ((Binary.inRange_ofFloat finite).unpack_neg shape) (iff_of_true ⟨rfl, some⟩ below)⟩
  · rw [if_neg below]
    exact ⟨y, unsigned, Binary.beq_of_unpacked finite shape (iff_of_false (by simp) below)⟩

theorem reads_back_of_infinite {x : Float} (infinite : x.isInf = true) (number : x.isNaN = false) :
    ∃ y, Decimal.ofText? (numberText x) = some y ∧ (y == x) = true := by
  have equal {y : Float} (also : y.isInf = true) (signs : y < 0.0 ↔ x < 0.0) :
      (y == x) = true := by
    change y.toModel.unpack.beq x.toModel.unpack = true
    have same := unpack_eq_of_isInf also infinite signs
    rw [beq_iff_ne_notANumber_and_eq]
    have proper := isNaN_eq_false_iff.mp number
    exact ⟨same ▸ proper, proper, .inl same⟩
  rw [ofText?_numberText number, magnitudeChars, if_pos infinite]
  by_cases below : x < 0.0
  · rw [if_pos below]
    exact ⟨-Decimal.infinity, rfl, equal (by decide) (iff_of_true (by decide) below)⟩
  · rw [if_neg below]
    exact ⟨Decimal.infinity, rfl, equal (by decide) (iff_of_false (by decide) below)⟩

/-- The text of a number reads back as the number, but for the sign of zero. -/
theorem numberText_reads_back {x : Float} (number : x.isNaN = false) :
    ∃ y, Decimal.ofText? (numberText x) = some y ∧ (y == x) = true := by
  cases infinite : x.isInf with
  | true => exact reads_back_of_infinite infinite number
  | false => exact reads_back_of_finite number infinite

end Value

end BlockScript
