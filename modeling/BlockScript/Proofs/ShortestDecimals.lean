import BlockScript.Proofs.NumberText
import BlockScript.Proofs.RoundingIntervals
import BlockScript.Value
/-!
The digits of a number tell which number it is.

The digits found for a float round to it: a grid of so many places that the numbers on it have
seventeen digits is finer than the interval that rounds to the float. What is laid out of the digits
still has their value, and no value rounds to two floats.
-/

namespace BlockScript

namespace Binary

theorem natCast_pow_toNat (base : ℕ) (positive : base ≠ 0) (z : ℤ) :
    ((Nat.pow base z.toNat : ℕ) : ℚ) = (base : ℚ) ^ z * ((Nat.pow base (-z).toNat : ℕ) : ℚ) := by
  have nonzero : (base : ℚ) ≠ 0 := by exact_mod_cast positive
  obtain ⟨k, rfl | rfl⟩ := z.eq_nat_or_neg
  · simp
  · simp [nonzero]

theorem quarterUnit_eq (b : Binary) :
    (b.quarterUnit.1 : ℚ) = 2 ^ (b.exponent - 2) * b.quarterUnit.2 := by
  have twos := natCast_pow_toNat 2 (by decide) (b.exponent - 2)
  rwa [neg_sub] at twos

/-- The two units in which numbers are compared, a quarter of that of the mantissa and that of the
grid, are scaled alike. -/
theorem exists_scale {b : Binary} {num den : ℕ} (quarter : b.quarterUnit = (num, den)) (place : ℤ) :
    ∃ scale : ℚ, 0 < scale ∧
      ((num * Nat.pow 10 (-place).toNat : ℕ) : ℚ) = 2 ^ (b.exponent - 2) * scale ∧
      ((den * Nat.pow 10 place.toNat : ℕ) : ℚ) = 10 ^ place * scale := by
  have twos := b.quarterUnit_eq
  have tens := natCast_pow_toNat 10 (by decide) place
  have positive : 0 < den * Nat.pow 10 (-place).toNat := by
    obtain ⟨-, rfl⟩ := Prod.mk.inj quarter
    exact Nat.mul_pos (Nat.pow_pos (by decide)) (Nat.pow_pos (by decide))
  rw [quarter] at twos
  refine ⟨((den * Nat.pow 10 (-place).toNat : ℕ) : ℚ), by exact_mod_cast positive, ?_, ?_⟩
  · rw [Nat.cast_mul, Nat.cast_mul, twos]
    ring
  · rw [Nat.cast_mul, Nat.cast_mul, tens]
    push_cast
    ring

/-- A grid point is a hit if it rounds to the number. -/
theorem hits_iff_rounds {b : Binary} (positive : b.mantissa ≠ 0) (place : ℤ) (d : ℕ) :
    b.hits place d = true ↔ b.Rounds (d * 10 ^ place) := by
  obtain ⟨num, den, quarter⟩ : ∃ num den, b.quarterUnit = (num, den) := ⟨_, _, rfl⟩
  obtain ⟨scale, pos, quarters, places⟩ := exists_scale quarter place
  have point : ((d * (den * Nat.pow 10 place.toNat) : ℕ) : ℚ) = d * 10 ^ place * scale := by
    rw [Nat.cast_mul, places]
    ring
  have high : (((4 * b.mantissa + 2) * (num * Nat.pow 10 (-place).toNat) : ℕ) : ℚ) =
      b.upper * scale := by
    rw [Nat.cast_mul, quarters, upper]
    push_cast
    ring
  have low : (((4 * b.mantissa - if b.narrow then 1 else 2) *
      (num * Nat.pow 10 (-place).toNat) : ℕ) : ℚ) = b.lower * scale := by
    rw [Nat.cast_mul, quarters, lower, Nat.cast_sub (by split <;> omega)]
    push_cast
    ring
  have scaled_le (p q : ℚ) : p * scale ≤ q * scale ↔ p ≤ q := mul_le_mul_iff_left₀ pos
  have scaled_lt (p q : ℚ) : p * scale < q * scale ↔ p < q := mul_lt_mul_iff_left₀ pos
  simp only [hits, quarter, Rounds, beq_iff_eq]
  split
  · simp only [Bool.and_eq_true, decide_eq_true_eq]
    rw [← Nat.cast_le (α := ℚ), ← Nat.cast_le (α := ℚ), point, high, low, scaled_le, scaled_le]
  · simp only [Bool.and_eq_true, decide_eq_true_eq]
    rw [← Nat.cast_lt (α := ℚ), ← Nat.cast_lt (α := ℚ), point, high, low, scaled_lt, scaled_lt]

/-- When no point of a grid is found, the points next to the number are no hits. -/
theorem exists_missed {b : Binary} {tie : Tie} {place : ℤ} (missed : b.onGrid tie place = none) :
    ∃ n : ℕ, n * 10 ^ place ≤ b.value ∧ b.value < (n + 1) * 10 ^ place ∧
      b.hits place n = false ∧ b.hits place (n + 1) = false := by
  revert missed
  fun_cases onGrid b tie place with
  | case1 _ num den quarter value unit below above missedAbove missedBelow =>
    intro _
    obtain ⟨scale, pos, quarters, places⟩ := exists_scale quarter place
    have units : (unit : ℚ) = 10 ^ place * scale := places
    have scaled : (value : ℚ) = b.value * scale := by
      rw [Nat.cast_mul, quarters, value_eq]
      push_cast
      ring
    have unit_pos : 0 < unit := by
      have : (0 : ℚ) < unit := by
        rw [units]
        positivity
      exact_mod_cast this
    refine ⟨below, ?_, ?_, missedBelow, missedAbove⟩
    · have floor : (below : ℚ) * unit ≤ value := by exact_mod_cast Nat.div_mul_le_self value unit
      rw [units, scaled, ← mul_assoc] at floor
      exact le_of_mul_le_mul_right floor pos
    · have next : (value : ℚ) < (below + 1) * unit := by
        rw [mul_comm]
        exact_mod_cast Nat.lt_mul_div_succ value unit_pos
      rw [units, scaled, ← mul_assoc] at next
      exact lt_of_mul_lt_mul_right next pos.le
  | _ =>
    intro missed
    cases missed

/-- Seventeen digits suffice: the grid is finer than the interval, so one of the two points next to
the number lies within it. -/
theorem onGrid_ne_none {b : Binary} (canonical : b.Canonical) (positive : b.mantissa ≠ 0)
    (tie : Tie) {place : ℤ} (fine : 10 ^ 16 * 10 ^ place ≤ b.value) :
    b.onGrid tie place ≠ none := by
  intro missed
  obtain ⟨n, floor, next, missedBelow, missedAbove⟩ := exists_missed missed
  have below : n * 10 ^ place ≤ b.lower := by
    by_contra inside
    have hit := (hits_iff_rounds positive place n).mpr
      (rounds_of_between (not_le.mp inside) (lt_of_le_of_lt floor b.value_lt_upper))
    rw [hit] at missedBelow
    cases missedBelow
  have above : b.upper ≤ (n + 1) * 10 ^ place := by
    by_contra inside
    have hit := (hits_iff_rounds positive place (n + 1)).mpr (by
      push_cast
      exact rounds_of_between (lt_trans b.lower_lt_value next) (not_le.mp inside))
    rw [hit] at missedAbove
    cases missedAbove
  have width : b.upper - b.lower ≤ 10 ^ place := by linarith
  have unit : (0 : ℚ) < 2 ^ (b.exponent - 2) := by positivity
  rw [value_eq] at fine
  cases narrow : b.narrow with
  | true =>
    rw [upper, lower_of_narrow narrow] at width
    rw [(canonical.narrow_iff.mp narrow).1] at fine width
    push_cast at fine width
    linarith
  | false =>
    have bound : (b.mantissa : ℚ) < 2 ^ 53 := by exact_mod_cast canonical.mantissa_lt
    have small : (b.mantissa : ℚ) * 2 ^ (b.exponent - 2) < 2 ^ 53 * 2 ^ (b.exponent - 2) :=
      mul_lt_mul_of_pos_right bound unit
    rw [upper, lower_of_wide narrow] at width
    linarith

end Binary

namespace Decimal

theorem value_dropZeros (fuel : ℕ) (d : Decimal) : (dropZeros fuel d).value = d.value := by
  fun_induction dropZeros fuel d with
  | case1 => rfl
  | case2 fuel d zeros ih =>
    have tens : (d.digits : ℚ) = 10 * (d.digits / 10 : ℕ) := by
      exact_mod_cast (Nat.mul_div_cancel' (Nat.dvd_of_mod_eq_zero zeros.2)).symm
    rw [ih, value, value, tens, zpow_add_one₀ (by norm_num)]
    ring
  | case3 => rfl

/-- What is found on a grid rounds to the number. -/
theorem rounds_found {b : Binary} (positive : b.mantissa ≠ 0) {tie : Tie} {place : ℤ} {digits : ℕ}
    (found : b.onGrid tie place = some digits) (fuel : ℕ) :
    b.Rounds (dropZeros fuel ⟨digits, place⟩).value := by
  rw [value_dropZeros]
  exact (Binary.hits_iff_rounds positive place digits).mp (Binary.onGrid_hits found)

theorem rounds_search {b : Binary} (positive : b.mantissa ≠ 0) (tie : Tie) (magnitude : ℤ)
    (tries count : ℕ) (last : b.onGrid tie (magnitude - (count + tries)) ≠ none) :
    b.Rounds (search b tie magnitude (tries + 1) count).value := by
  induction tries generalizing count with
  | zero =>
    rw [search]
    split
    · next digits found => exact rounds_found positive found _
    · next missed => exact absurd missed (by simpa using last)
  | succ tries ih =>
    rw [search]
    split
    · next digits found => exact rounds_found positive found _
    · apply ih
      push_cast at last ⊢
      rwa [add_assoc, add_comm 1]

end Decimal

theorem length_toDigits_bounds {n : ℕ} (positive : n ≠ 0) :
    10 ^ ((Nat.toDigits 10 n).length - 1) ≤ n ∧ n < 10 ^ (Nat.toDigits 10 n).length := by
  have some : 0 < (Nat.toDigits 10 n).length := List.length_pos_iff.mpr Nat.toDigits_ne_nil
  constructor
  · by_contra less
    have left : 0 < (Nat.toDigits 10 n).length - 1 := by
      by_contra none
      have zero : (Nat.toDigits 10 n).length - 1 = 0 := by omega
      rw [zero] at less
      omega
    have := (Nat.length_toDigits_le_iff (by omega) left).mpr (not_le.mp less)
    omega
  · exact (Nat.length_toDigits_le_iff (by omega) some).mp le_rfl

namespace Binary

/-- A fraction is no less than the power of ten before its magnitude. -/
theorem pow_magnitude_le {num den : ℕ} (top : num ≠ 0) (bottom : den ≠ 0) :
    (10 : ℚ) ^ (magnitude num den - 1) ≤ num / den := by
  have den_pos : (0 : ℚ) < den := by exact_mod_cast Nat.pos_of_ne_zero bottom
  have small {k : ℕ} (enough : den ≤ num * 10 ^ k) : (10 : ℚ) ^ (-(k : ℤ)) ≤ num / den := by
    rw [zpow_neg, zpow_natCast, le_div_iff₀ den_pos, inv_mul_le_iff₀ (by positivity), mul_comm]
    exact_mod_cast enough
  rw [magnitude]
  split
  · next above =>
    have whole : num / den ≠ 0 := Nat.ne_of_gt (Nat.div_pos above (Nat.pos_of_ne_zero bottom))
    have some : 0 < (Nat.toDigits 10 (num / den)).length :=
      List.length_pos_iff.mpr Nat.toDigits_ne_nil
    have bound := Nat.mul_le_of_le_div _ _ _ (length_toDigits_bounds whole).1
    rw [← Nat.cast_pred some, zpow_natCast, le_div_iff₀ den_pos]
    exact_mod_cast bound
  · next under =>
    have whole : den / num ≠ 0 :=
      Nat.ne_of_gt (Nat.div_pos (by omega) (Nat.pos_of_ne_zero top))
    have some : 0 < (Nat.toDigits 10 (den / num)).length :=
      List.length_pos_iff.mpr Nat.toDigits_ne_nil
    have bound := (length_toDigits_bounds whole).2
    generalize (Nat.toDigits 10 (den / num)).length = length at some bound
    dsimp only
    split
    · next fits =>
      have exponent : 2 - (length : ℤ) - 1 = -((length - 1 : ℕ) : ℤ) := by omega
      rw [exponent]
      exact small fits
    · have exponent : 1 - (length : ℤ) - 1 = -(length : ℤ) := by omega
      rw [exponent]
      refine small (Nat.le_of_lt ?_)
      rw [mul_comm]
      exact (Nat.div_lt_iff_lt_mul (Nat.pos_of_ne_zero top)).mp bound

end Binary

namespace Decimal

/-- The digits found for a float round to it. -/
theorem rounds_shortest (tie : Tie) (x : Float) :
    (Binary.ofFloat x).Rounds (shortest tie x).value := by
  have canonical := Binary.canonical_ofFloat x
  simp only [shortest]
  generalize Binary.ofFloat x = b at *
  split
  · next zero =>
    have nothing : b.value = 0 := by rw [Binary.value, zero]; simp
    have same : Decimal.value ⟨0, 0⟩ = b.value := by simp [value, nothing]
    rw [same]
    exact b.rounds_value
  · next positive =>
    have top : 4 * b.mantissa * b.quarterUnit.1 ≠ 0 :=
      Nat.ne_of_gt (Nat.mul_pos (by omega) (Nat.pow_pos (by decide)))
    have bottom : b.quarterUnit.2 ≠ 0 := Nat.ne_of_gt (Nat.pow_pos (by decide))
    have fraction : ((4 * b.mantissa * b.quarterUnit.1 : ℕ) : ℚ) / b.quarterUnit.2 = b.value := by
      have nonzero : (b.quarterUnit.2 : ℚ) ≠ 0 := by exact_mod_cast bottom
      rw [Nat.cast_mul, b.quarterUnit_eq, b.value_eq]
      push_cast
      field_simp
    have bound := Binary.pow_magnitude_le top bottom
    rw [fraction] at bound
    refine rounds_search positive tie _ 16 1 (Binary.onGrid_ne_none canonical positive tie ?_)
    refine le_trans (le_of_eq ?_) bound
    rw [← zpow_natCast, ← zpow_add₀ (by norm_num)]
    congr 1
    push_cast
    ring

/-- A fraction behind its point, and nothing without a fraction. -/
def pointed : List Char → List Char
  | [] => []
  | c :: cs => '.' :: c :: cs

/-- Digits laid out around a point, with what they stand for. -/
structure LaidOut (d : Decimal) (whole fraction : List Char) : Prop where
  digits : Json.Digits whole
  decimals : ∀ c ∈ fraction, c.isDigit
  text : d.positional = whole ++ pointed fraction
  value : d.value = ofDigits (whole ++ fraction) / 10 ^ fraction.length

theorem ofDigits_digitChars (d : Decimal) : ofDigits d.digitChars = d.digits := by
  rw [ofDigits_eq_ofDigitChars, digitChars, Nat.ofDigitChars_ten_toDigits]

variable {d : Decimal}

/-- All digits stand before the point, with zeros for the places that are left. -/
theorem laidOut_of_nonneg (before : 0 ≤ d.exponent) :
    d.LaidOut (d.digitChars ++ List.replicate d.exponent.toNat '0') [] where
  digits := by
    refine ⟨by simp [d.digits_digitChars.nonempty], ?_⟩
    intro c mem
    obtain mem | mem := List.mem_append.mp mem
    · exact d.digits_digitChars.digits c mem
    · exact Json.digits_zeros c mem
  decimals := by simp
  text := by simp [positional, before, pointed]
  value := by
    have shifted : ofDigits (d.digitChars ++ List.replicate d.exponent.toNat '0') =
        10 ^ d.exponent.toNat * d.digits := by
      have all := d.ofDigits_digitChars
      rw [ofDigits_eq_ofDigitChars] at all ⊢
      rw [Nat.ofDigitChars_append, Nat.ofDigitChars_replicate_zero, all]
    rw [List.append_nil, shifted, value]
    nth_rewrite 1 [← Int.toNat_of_nonneg before]
    push_cast
    rw [zpow_natCast]
    simp [mul_comm]

theorem value_of_neg (after : ¬0 ≤ d.exponent) :
    d.value = (d.digits : ℚ) / 10 ^ (-d.exponent).toNat := by
  have places : d.exponent = -((-d.exponent).toNat : ℤ) := by omega
  rw [value, div_eq_mul_inv, ← zpow_natCast, ← zpow_neg, ← places]

theorem pointed_of_ne_nil {fraction : List Char} (some : fraction ≠ []) :
    pointed fraction = '.' :: fraction := by
  cases fraction with
  | nil => exact absurd rfl some
  | cons c cs => rfl

/-- The point stands between two digits. -/
theorem laidOut_of_lt (after : ¬0 ≤ d.exponent)
    (places : (-d.exponent).toNat < d.digitChars.length) :
    d.LaidOut (d.digitChars.take (d.digitChars.length - (-d.exponent).toNat))
      (d.digitChars.drop (d.digitChars.length - (-d.exponent).toNat)) where
  digits := by
    refine ⟨?_, fun c mem => d.digits_digitChars.digits c (List.mem_of_mem_take mem)⟩
    simp only [ne_eq, List.take_eq_nil_iff, d.digits_digitChars.nonempty, or_false]
    omega
  decimals := fun c mem => d.digits_digitChars.digits c (List.mem_of_mem_drop mem)
  text := by
    rw [pointed_of_ne_nil (by simp only [ne_eq, List.drop_eq_nil_iff]; omega)]
    simp [positional, after, places]
  value := by
    have length : d.digitChars.length - (d.digitChars.length - (-d.exponent).toNat) =
        (-d.exponent).toNat := by omega
    rw [List.take_append_drop, d.ofDigits_digitChars, List.length_drop, length, value_of_neg after]

/-- Zeros stand before the digits, on both sides of the point. -/
theorem laidOut_of_le (after : ¬0 ≤ d.exponent)
    (places : d.digitChars.length ≤ (-d.exponent).toNat) :
    d.LaidOut ['0']
      (List.replicate ((-d.exponent).toNat - d.digitChars.length) '0' ++ d.digitChars) where
  digits := Json.digits_singleton rfl
  decimals := by
    intro c mem
    obtain mem | mem := List.mem_append.mp mem
    · exact Json.digits_zeros c mem
    · exact d.digits_digitChars.digits c mem
  text := by
    rw [pointed_of_ne_nil (by simp [d.digits_digitChars.nonempty])]
    simp [positional, after, Nat.not_lt.mpr places]
  value := by
    have same : ofDigits (['0'] ++
        (List.replicate ((-d.exponent).toNat - d.digitChars.length) '0' ++ d.digitChars)) =
          d.digits := by
      have all := d.ofDigits_digitChars
      have zero : ['0'] = List.replicate 1 '0' := rfl
      rw [ofDigits_eq_ofDigitChars] at all ⊢
      rw [zero, Nat.ofDigitChars_append, Nat.ofDigitChars_append, Nat.ofDigitChars_replicate_zero,
        Nat.ofDigitChars_replicate_zero, Nat.mul_zero, all]
    have length : (List.replicate ((-d.exponent).toNat - d.digitChars.length) '0' ++
        d.digitChars).length = (-d.exponent).toNat := by
      rw [List.length_append, List.length_replicate]
      omega
    rw [same, length, value_of_neg after]

theorem exists_laidOut (d : Decimal) : ∃ whole fraction, d.LaidOut whole fraction := by
  by_cases before : 0 ≤ d.exponent
  · exact ⟨_, _, laidOut_of_nonneg before⟩
  by_cases between : (-d.exponent).toNat < d.digitChars.length
  · exact ⟨_, _, laidOut_of_lt before between⟩
  · exact ⟨_, _, laidOut_of_le before (Nat.not_lt.mp between)⟩

/-- What is laid out alike has one value. -/
theorem value_eq_of_positional_eq {d e : Decimal} (same : d.positional = e.positional) :
    d.value = e.value := by
  obtain ⟨whole, fraction, left⟩ := d.exists_laidOut
  obtain ⟨whole', fraction', right⟩ := e.exists_laidOut
  have stops (cs : List Char) : ∀ c ∈ (pointed cs).head?, c.isDigit = false := by
    cases cs with
    | nil => simp [pointed]
    | cons c cs => simp [pointed]
  have one := span_digits left.digits.digits (stops fraction)
  have two := span_digits right.digits.digits (stops fraction')
  rw [← left.text, same, right.text] at one
  have wholes : whole' = whole := two.1.symm.trans one.1
  have rests : pointed fraction' = pointed fraction := two.2.symm.trans one.2
  have fractions : fraction' = fraction := by
    cases fraction with
    | nil =>
      cases fraction' with
      | nil => rfl
      | cons => cases rests
    | cons =>
      cases fraction' with
      | nil => cases rests
      | cons => exact List.tail_eq_of_cons_eq rests
  rw [left.value, right.value, wholes, fractions]

end Decimal

/-- A number that is whole is what it is found to be. -/
theorem Binary.value_of_whole? {b : Binary} {n : ℕ} (whole : b.whole? = some n) :
    b.value = n := by
  have twos := natCast_pow_toNat 2 (by decide) b.exponent
  simp only [whole?, Option.ite_none_right_eq_some, Option.some.injEq] at whole
  obtain ⟨divides, rfl⟩ := whole
  have parts : (b.mantissa : ℚ) = (Nat.pow 2 (-b.exponent).toNat : ℕ) *
      (b.mantissa / Nat.pow 2 (-b.exponent).toNat : ℕ) := by
    exact_mod_cast (Nat.mul_div_cancel' (Nat.dvd_of_mod_eq_zero divides)).symm
  rw [Nat.cast_mul, twos, value, parts]
  push_cast
  ring

namespace Value

/-- The digits a number is written with round to it. -/
theorem rounds_decimal (x : Float) : (Binary.ofFloat x).Rounds (decimal x).value := by
  rw [decimal]
  split
  · next n whole =>
    split
    · have same : Decimal.value ⟨n, 0⟩ = (Binary.ofFloat x).value := by
        rw [Binary.value_of_whole? whole]
        simp [Decimal.value]
      rw [same]
      exact Binary.rounds_value _
    · exact Decimal.rounds_shortest .up x
  · exact Decimal.rounds_shortest .up x

/-- So they tell the number, but for its sign. -/
theorem ofFloat_eq_of_positional_eq {x y : Float}
    (same : (decimal x).positional = (decimal y).positional) :
    Binary.ofFloat x = Binary.ofFloat y := by
  have left := rounds_decimal x
  rw [Decimal.value_eq_of_positional_eq same] at left
  exact (Binary.canonical_ofFloat x).eq_of_rounds (Binary.canonical_ofFloat y) left
    (rounds_decimal y)

end Value

end BlockScript
