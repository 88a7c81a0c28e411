import Mathlib.Algebra.Order.Field.Power
import Mathlib.Data.Rat.Cast.Order
import Mathlib.Tactic.FieldSimp
import Mathlib.Tactic.Linarith
import Mathlib.Tactic.NormNum
import Mathlib.Tactic.Positivity
import Mathlib.Tactic.Ring
import BlockScript.Decimal.Shortest
/-!
The numbers that round to a float.

A float is the nearest one to all numbers between the middles to its two neighbours, and to these
middles as well if its mantissa is even. Neighbours have mantissas of different parity, so no number
rounds to two floats.
-/

namespace BlockScript

/-- The number itself. -/
def Decimal.value (d : Decimal) : ℚ :=
  d.digits * 10 ^ d.exponent

namespace Binary

/-- The number itself. -/
def value (b : Binary) : ℚ :=
  b.mantissa * 2 ^ b.exponent

/-- The middle to the neighbour below. -/
def lower (b : Binary) : ℚ :=
  (4 * b.mantissa - if b.narrow then 1 else 2) * 2 ^ (b.exponent - 2)

/-- The middle to the neighbour above. -/
def upper (b : Binary) : ℚ :=
  (4 * b.mantissa + 2) * 2 ^ (b.exponent - 2)

/-- The numbers to which no other float is nearer, or equally near and even. -/
def Rounds (b : Binary) (q : ℚ) : Prop :=
  if b.mantissa % 2 = 0 then b.lower ≤ q ∧ q ≤ b.upper else b.lower < q ∧ q < b.upper

/-- The form in which every float is written once: the mantissa has all its bits unless the exponent
is the least there is. The neighbour below a mantissa of which only the first bit is set has a
smaller exponent, unless there is none. -/
structure Canonical (b : Binary) : Prop where
  mantissa_lt : b.mantissa < 2 ^ 53
  le_exponent : -1074 ≤ b.exponent
  le_mantissa : -1074 < b.exponent → 2 ^ 52 ≤ b.mantissa
  narrow_iff : b.narrow = true ↔ b.mantissa = 2 ^ 52 ∧ -1074 < b.exponent

theorem canonical_ofFloat (x : Float) : (ofFloat x).Canonical := by
  have fraction : x.toBits.toNat % Nat.pow 2 52 < 2 ^ 52 := Nat.mod_lt _ (by decide)
  rw [ofFloat]
  generalize x.toBits.toNat % Nat.pow 2 52 = fraction at *
  generalize (x.toBits.toNat / Nat.pow 2 52 % Nat.pow 2 11) = biased
  split
  · exact ⟨by dsimp only; omega, by simp, by simp, by simp⟩
  · refine ⟨by dsimp only [Nat.pow_eq]; omega, by dsimp only; omega,
      fun _ => Nat.le_add_right _ _, ?_⟩
    simp only [Bool.and_eq_true, decide_eq_true_eq, Nat.pow_eq]
    omega

variable {b c : Binary}

theorem lower_of_wide (wide : b.narrow = false) :
    b.lower = (4 * b.mantissa - 2) * 2 ^ (b.exponent - 2) := by
  rw [lower, wide]
  rfl

theorem lower_of_narrow (narrow : b.narrow = true) :
    b.lower = (4 * b.mantissa - 1) * 2 ^ (b.exponent - 2) := by
  rw [lower, narrow]
  rfl

/-- The intervals of two floats lie apart, or meet in a middle that at most one of them includes. -/
def Apart (b c : Binary) : Prop :=
  b.upper < c.lower ∨ b.upper = c.lower ∧ (b.mantissa % 2 = 1 ∨ c.mantissa % 2 = 1)

theorem Apart.not_rounds (apart : b.Apart c) {q : ℚ} (first : b.Rounds q) : ¬c.Rounds q := by
  intro second
  rw [Rounds] at first second
  obtain gap | ⟨meet, parity⟩ := apart
  · split at first <;> split at second <;> linarith [first.2, second.1]
  · split at first <;> split at second <;> first | omega | linarith [first.2, second.1]

theorem Canonical.apart_of_mantissa (low : b.Canonical) (high : c.Canonical)
    (exponent : b.exponent = c.exponent) (mantissa : b.mantissa < c.mantissa) : b.Apart c := by
  have wide : c.narrow = false := by
    rw [Bool.eq_false_iff, ne_eq, high.narrow_iff]
    rintro ⟨first, above⟩
    have := low.le_mantissa (exponent ▸ above)
    omega
  have unit : (0 : ℚ) < 2 ^ (c.exponent - 2) := by positivity
  rw [Apart, lower_of_wide wide, upper, exponent]
  obtain next | further := Nat.eq_or_lt_of_le (Nat.succ_le_of_lt mantissa)
  · refine .inr ⟨?_, by omega⟩
    rw [← next]
    push_cast
    ring
  · have far : (b.mantissa : ℚ) + 2 ≤ c.mantissa := by exact_mod_cast further
    exact .inl (mul_lt_mul_of_pos_right (by linarith) unit)

theorem Canonical.apart_of_exponent (low : b.Canonical) (high : c.Canonical)
    (exponent : b.exponent < c.exponent) : b.Apart c := by
  have above : -1074 < c.exponent := lt_of_le_of_lt low.le_exponent exponent
  have full := high.le_mantissa above
  have small : b.mantissa + 1 ≤ 2 ^ 53 := low.mantissa_lt
  have unit : (0 : ℚ) < 2 ^ (b.exponent - 2) := by positivity
  have double : (2 : ℚ) ^ (b.exponent - 2) * 2 ≤ 2 ^ (c.exponent - 2) := by
    rw [← zpow_add_one₀ (by norm_num)]
    exact zpow_le_zpow_right₀ (by norm_num) (by omega)
  have most : b.upper ≤ (2 ^ 55 - 2) * 2 ^ (b.exponent - 2) := by
    have bound : (b.mantissa : ℚ) + 1 ≤ 2 ^ 53 := by exact_mod_cast small
    exact mul_le_mul_of_nonneg_right (by linarith) unit.le
  obtain first | more := Nat.eq_or_lt_of_le full
  · -- The neighbour below the first mantissa is the last one of the exponent before.
    have narrow := high.narrow_iff.mpr ⟨first.symm, above⟩
    have least : (2 ^ 55 - 2) * 2 ^ (b.exponent - 2) ≤ c.lower := by
      rw [lower_of_narrow narrow, ← first]
      push_cast
      linarith
    obtain last | fewer := Nat.eq_or_lt_of_le small
    · obtain strict | equal := lt_or_eq_of_le (most.trans least)
      · exact .inl strict
      · exact .inr ⟨equal, .inl (by omega)⟩
    · refine .inl (lt_of_lt_of_le ?_ least)
      have bound : (b.mantissa : ℚ) + 2 ≤ 2 ^ 53 := by exact_mod_cast fewer
      exact mul_lt_mul_of_pos_right (by linarith) unit
  · refine .inl (lt_of_le_of_lt most ?_)
    have wide : c.narrow = false := by
      rw [Bool.eq_false_iff, ne_eq, high.narrow_iff]
      omega
    have bound : (2 : ℚ) ^ 52 + 1 ≤ c.mantissa := by exact_mod_cast more
    rw [lower_of_wide wide]
    calc (2 ^ 55 - 2 : ℚ) * 2 ^ (b.exponent - 2)
        < (2 ^ 54 + 2) * (2 ^ (b.exponent - 2) * 2) := by linarith
      _ ≤ (2 ^ 54 + 2) * 2 ^ (c.exponent - 2) := mul_le_mul_of_nonneg_left double (by norm_num)
      _ ≤ (4 * c.mantissa - 2) * 2 ^ (c.exponent - 2) :=
        mul_le_mul_of_nonneg_right (by linarith) (by positivity)

/-- No number rounds to two floats. -/
theorem Canonical.eq_of_rounds (left : b.Canonical) (right : c.Canonical) {q : ℚ}
    (first : b.Rounds q) (second : c.Rounds q) : b = c := by
  have exponent : b.exponent = c.exponent := by
    obtain below | same | above := lt_trichotomy b.exponent c.exponent
    · exact absurd second ((left.apart_of_exponent right below).not_rounds first)
    · exact same
    · exact absurd first ((right.apart_of_exponent left above).not_rounds second)
  have mantissa : b.mantissa = c.mantissa := by
    obtain below | same | above := lt_trichotomy b.mantissa c.mantissa
    · exact absurd second ((left.apart_of_mantissa right exponent below).not_rounds first)
    · exact same
    · exact absurd first ((right.apart_of_mantissa left exponent.symm above).not_rounds second)
  have narrow : b.narrow = c.narrow := by
    rw [Bool.eq_iff_iff, left.narrow_iff, right.narrow_iff, mantissa, exponent]
  obtain ⟨_, _, _⟩ := b
  obtain ⟨_, _, _⟩ := c
  simp_all

theorem value_eq (b : Binary) : b.value = 4 * b.mantissa * 2 ^ (b.exponent - 2) := by
  rw [value, zpow_sub₀ (by norm_num)]
  ring

theorem lower_lt_value (b : Binary) : b.lower < b.value := by
  rw [lower, value_eq]
  exact mul_lt_mul_of_pos_right (by split <;> linarith) (by positivity)

theorem value_lt_upper (b : Binary) : b.value < b.upper := by
  rw [upper, value_eq]
  exact mul_lt_mul_of_pos_right (by linarith) (by positivity)

theorem rounds_of_between {q : ℚ} (above : b.lower < q) (below : q < b.upper) : b.Rounds q := by
  rw [Rounds]
  split
  · exact ⟨above.le, below.le⟩
  · exact ⟨above, below⟩

/-- A float rounds to itself. -/
theorem rounds_value (b : Binary) : b.Rounds b.value :=
  rounds_of_between b.lower_lt_value b.value_lt_upper

end Binary

end BlockScript
