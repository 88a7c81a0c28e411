import BlockScript.Proofs.TextEquality
/-!
The operations on floats round to the nearest float.

An operation computes a mantissa, an exponent and what it knows of the rest: nothing, less than a
half, a half, or more. This is enough to round, also after shifts to the right. The result is the
one float that the exact number rounds to, if it is in range.
-/

namespace BlockScript

open Float.Model Float.Model.UnpackedFloat

/-- What an accuracy says of the part of a number that is left out. -/
def Tells : Accuracy → ℚ → Prop
  | .exact, f => f = 0
  | .inexact .lt, f => 0 < f ∧ f < 1 / 2
  | .inexact .eq, f => f = 1 / 2
  | .inexact .gt, f => 1 / 2 < f ∧ f < 1

theorem Tells.bounds {a : Accuracy} {f : ℚ} (h : Tells a f) : 0 ≤ f ∧ f < 1 := by
  rcases a with - | (- | - | -) <;> simp only [Tells] at h <;> constructor <;> linarith

/-- Whole numbers to which no other is nearer, or equally near and even. -/
def Nearest (n : ℕ) (r : ℚ) : Prop :=
  if n % 2 = 0 then n - 1 / 2 ≤ r ∧ r ≤ n + 1 / 2 else n - 1 / 2 < r ∧ r < n + 1 / 2

theorem Nearest.bounds {n : ℕ} {r : ℚ} (h : Nearest n r) : n - 1 / 2 ≤ r ∧ r ≤ n + 1 / 2 := by
  unfold Nearest at h
  split at h
  · exact h
  · exact ⟨h.1.le, h.2.le⟩

theorem Tells.nearest {m : ℕ} {a : Accuracy} {r : ℚ} (h : Tells a (r - m)) :
    Nearest (a.roundToNearestEven m) r := by
  rcases a with - | (- | - | -) <;> simp only [Tells, Accuracy.roundToNearestEven] at h ⊢
  · unfold Nearest
    split <;> constructor <;> linarith
  · unfold Nearest
    split <;> constructor <;> linarith
  · have even : (m + m % 2) % 2 = 0 := by omega
    obtain zero | one := Nat.mod_two_eq_zero_or_one m
    · rw [Nearest, if_pos even, zero]
      constructor <;> push_cast <;> linarith
    · rw [Nearest, if_pos even, one]
      constructor <;> push_cast <;> linarith
  · unfold Nearest
    split <;> constructor <;> push_cast <;> linarith

/-- A mantissa with its rounding bits, and a number it is the whole part of. -/
def Approximates (em : ExtendedMantissa) (r : ℚ) : Prop :=
  Tells em.accuracy (r - em.mantissa)

theorem approximates_ofMantissaAndAccuracy {m : ℕ} {a : Accuracy} {r : ℚ} (h : Tells a (r - m)) :
    Approximates (.ofMantissaAndAccuracy m a) r := by
  rcases a with - | (- | - | -) <;> exact h

namespace Approximates

theorem shiftRightOne {em : ExtendedMantissa} {r : ℚ} (h : Approximates em r) :
    Approximates em.shiftRightOne (r / 2) := by
  obtain ⟨m, roundBit, stickyBit⟩ := em
  have parts : (m : ℚ) = 2 * (m / 2 : ℕ) + (m % 2 : ℕ) := by
    exact_mod_cast (Nat.div_add_mod m 2).symm
  obtain even | odd := Nat.mod_two_eq_zero_or_one m
  · rw [even] at parts
    cases roundBit <;> cases stickyBit <;>
      simp only [Approximates, ExtendedMantissa.shiftRightOne, ExtendedMantissa.accuracy, Tells,
        even, Bool.or_false, Bool.or_true, bne_self_eq_false] at h ⊢ <;>
      push_cast at parts
    · linarith
    · constructor <;> linarith
    · constructor <;> linarith
    · constructor <;> linarith
  · rw [odd] at parts
    have bit : (1 != 0) = true := rfl
    cases roundBit <;> cases stickyBit <;>
      simp only [Approximates, ExtendedMantissa.shiftRightOne, ExtendedMantissa.accuracy, Tells,
        odd, bit, Bool.or_false, Bool.or_true] at h ⊢ <;>
      push_cast at parts
    · linarith
    · constructor <;> linarith
    · constructor <;> linarith
    · constructor <;> linarith

theorem shiftRight {em : ExtendedMantissa} {r : ℚ} (h : Approximates em r) (n : ℕ) :
    Approximates (em >>> n) (r / 2 ^ n) := by
  change Approximates (Nat.repeat ExtendedMantissa.shiftRightOne n em) _
  induction n with
  | zero => simpa [Nat.repeat] using h
  | succ n ih =>
    rw [Nat.repeat, pow_succ, ← div_div]
    exact ih.shiftRightOne

end Approximates

/-- A mantissa at the exponent it is to be rounded at: it has no more bits than fit, and all of
them unless the exponent is the least there is. -/
structure Aligned (em : ExtendedMantissa) (exponent : ℤ) (q : ℚ) : Prop where
  approximates : Approximates em (q / 2 ^ exponent)
  mantissa_lt : em.mantissa < 2 ^ 53
  le_exponent : -1074 ≤ exponent
  le_mantissa : -1074 < exponent → 2 ^ 52 ≤ em.mantissa

theorem targetExponent_eq (m : ℕ) (e : ℤ) :
    Format.binary64.targetExponent (totalExponent m e) = max (m.log2 + 1 + e - 53) (-1074) := rfl

/-- A mantissa that has all its bits, or whose exponent is small enough, loses no information by
being shifted to the exponent it is rounded at. -/
theorem aligned_shiftToTargetExponent {m : ℕ} {e : ℤ} {a : Accuracy} {q : ℚ}
    (tells : Tells a (q / 2 ^ e - m)) (fine : 2 ^ 52 ≤ m ∨ e ≤ -1074) :
    Aligned (shiftToTargetExponent Format.binary64 m e a).1
      (shiftToTargetExponent Format.binary64 m e a).2 q := by
  unfold shiftToTargetExponent shiftToExponent
  rw [targetExponent_eq]
  generalize target_eq : max ((m.log2 : ℤ) + 1 + e - 53) (-1074) = target
  have bits : 2 ^ 52 ≤ m → 52 ≤ m.log2 := fun full => (Nat.le_log2 (by omega)).mpr full
  have le_target : e ≤ target := by omega
  obtain ⟨k, shift⟩ : ∃ k : ℕ, target = e + k := ⟨(target - e).toNat, by omega⟩
  have amount : (target - e).toNat = k := by omega
  have start : (ExtendedMantissa.ofMantissaAndAccuracy m a).mantissa = m := by
    rcases a with - | (- | - | -) <;> rfl
  dsimp only
  rw [amount, ← shift]
  refine ⟨?_, ?_, by omega, ?_⟩
  · have shifted := (approximates_ofMantissaAndAccuracy tells).shiftRight k
    rwa [div_div, ← zpow_natCast, ← zpow_add₀ (by norm_num), ← shift] at shifted
  · rw [shifted_mantissa, start, Nat.div_lt_iff_lt_mul (by positivity), ← pow_add]
    exact lt_of_lt_of_le Nat.lt_log2_self (Nat.pow_le_pow_right (by decide) (by omega))
  · intro above
    have most : m.log2 = 52 + k := by omega
    have positive : m ≠ 0 := by
      rintro rfl
      rw [Nat.log2_zero] at most
      omega
    rw [shifted_mantissa, start, Nat.le_div_iff_mul_le (by positivity), ← pow_add, ← most]
    exact Nat.log2_self_le positive

namespace Binary

/-- The float of this magnitude. -/
def unpacked (b : Binary) (sign : Sign) : UnpackedFloat :=
  if h : b.mantissa = 0 then .zero sign
  else .finite sign b.mantissa b.exponent (Nat.pos_of_ne_zero h)

theorem unpacked_of_zero {b : Binary} (zero : b.mantissa = 0) (sign : Sign) :
    b.unpacked sign = .zero sign :=
  dif_pos zero

theorem unpacked_of_pos {b : Binary} (pos : 0 < b.mantissa) (sign : Sign) :
    b.unpacked sign = .finite sign b.mantissa b.exponent pos :=
  dif_neg pos.ne'

/-- A magnitude in the form in which every float is written once. -/
def canonical (mantissa : ℕ) (exponent : ℤ) : Binary where
  mantissa
  exponent
  narrow := mantissa = 2 ^ 52 ∧ -1074 < exponent

/-- Rounded to whole numbers at the exponent where it is aligned, a number is rounded to a float. -/
theorem rounds_of_nearest {b : Binary} {q : ℚ}
    (nearest : Nearest b.mantissa (q / 2 ^ b.exponent))
    (full : b.narrow = true → b.mantissa ≤ q / 2 ^ b.exponent) : b.Rounds q := by
  have unit : (0 : ℚ) < 2 ^ (b.exponent - 2) := by positivity
  have scaled : q = 4 * (q / 2 ^ b.exponent) * 2 ^ (b.exponent - 2) := by
    rw [zpow_sub₀ (by norm_num)]
    field_simp
    norm_num
  generalize q / 2 ^ b.exponent = r at nearest full scaled
  have least : b.narrow = true → b.lower < q := by
    intro narrow
    rw [lower_of_narrow narrow, scaled]
    exact mul_lt_mul_of_pos_right (by linarith [full narrow]) unit
  rw [Rounds]
  unfold Nearest at nearest
  split
  · next even =>
    rw [if_pos even] at nearest
    refine ⟨?_, ?_⟩
    · cases narrow : b.narrow with
      | true => exact (least narrow).le
      | false =>
        rw [lower_of_wide narrow, scaled]
        exact mul_le_mul_of_nonneg_right (by linarith) unit.le
    · rw [upper, scaled]
      exact mul_le_mul_of_nonneg_right (by linarith) unit.le
  · next odd =>
    rw [if_neg odd] at nearest
    refine ⟨?_, ?_⟩
    · cases narrow : b.narrow with
      | true => exact least narrow
      | false =>
        rw [lower_of_wide narrow, scaled]
        exact mul_lt_mul_of_pos_right (by linarith) unit
    · rw [upper, scaled]
      exact mul_lt_mul_of_pos_right (by linarith) unit

theorem canonical_canonical {m : ℕ} {e : ℤ} (mantissa_lt : m < 2 ^ 53) (le_exponent : -1074 ≤ e)
    (le_mantissa : -1074 < e → 2 ^ 52 ≤ m) : (canonical m e).Canonical :=
  ⟨mantissa_lt, le_exponent, le_mantissa, by simp [canonical]⟩

/-- A mantissa that overflows when it is rounded up is the first one of the next exponent. -/
theorem rounds_of_carry {e : ℤ} {q : ℚ} (least : -1074 ≤ e) (low : 2 ^ 53 - 1 / 2 ≤ q / 2 ^ e)
    (high : q / 2 ^ e < 2 ^ 53) : (canonical (2 ^ 52) (e + 1)).Rounds q := by
  have unit : (0 : ℚ) < 2 ^ (e + 1 - 2) := by positivity
  have scaled : q = 2 * (q / 2 ^ e) * 2 ^ (e + 1 - 2) := by
    rw [show e + 1 - 2 = e - 1 by ring, zpow_sub₀ (by norm_num)]
    field_simp
  generalize q / 2 ^ e = r at low high scaled
  have narrow : (canonical (2 ^ 52) (e + 1)).narrow = true := by
    simp only [canonical, true_and, decide_eq_true_eq]
    omega
  have even : (canonical (2 ^ 52) (e + 1)).mantissa % 2 = 0 := by
    norm_num [canonical]
  rw [Rounds, if_pos even, lower_of_narrow narrow, upper, scaled]
  simp only [canonical]
  push_cast
  exact ⟨mul_le_mul_of_nonneg_right (by linarith) unit.le,
    mul_le_mul_of_nonneg_right (by linarith) unit.le⟩

end Binary

theorem roundToNearestEven_bounds (m : ℕ) (a : Accuracy) :
    m ≤ a.roundToNearestEven m ∧ a.roundToNearestEven m ≤ m + 1 := by
  rcases a with - | (- | - | -) <;> simp only [Accuracy.roundToNearestEven] <;> omega

/-- A mantissa that was rounded is shifted again only if it has one bit too many. -/
theorem shiftToTargetExponent_of_lt {m : ℕ} {e : ℤ} (fits : m < 2 ^ 53) (least : -1074 ≤ e) :
    shiftToTargetExponent Format.binary64 m e .exact = (⟨m, false, false⟩, e) := by
  have bits : m.log2 ≤ 52 := by
    by_cases zero : m = 0
    · simp [zero]
    · exact Nat.lt_succ_iff.mp ((Nat.log2_lt zero).mpr fits)
  have amount : (max ((m.log2 : ℤ) + 1 + e - 53) (-1074) - e).toNat = 0 := by omega
  unfold shiftToTargetExponent shiftToExponent
  rw [targetExponent_eq]
  dsimp only
  rw [amount, Nat.cast_zero, add_zero]
  rfl

theorem shiftToTargetExponent_of_carry {e : ℤ} (least : -1074 ≤ e) :
    shiftToTargetExponent Format.binary64 (2 ^ 53) e .exact = (⟨2 ^ 52, false, false⟩, e + 1) := by
  have bits : (2 ^ 53).log2 = 53 := by decide
  have amount : (max (((2 ^ 53).log2 : ℤ) + 1 + e - 53) (-1074) - e).toNat = 1 := by omega
  unfold shiftToTargetExponent shiftToExponent
  rw [targetExponent_eq]
  dsimp only
  rw [amount]
  rfl

theorem roundWithAccuracy_eq (sign : Sign) {m : ℕ} {e t u : ℤ} {a : Accuracy}
    {em fm : ExtendedMantissa}
    (first : shiftToTargetExponent Format.binary64 m e a = (em, t))
    (second : shiftToTargetExponent Format.binary64 em.roundedMantissa t .exact = (fm, u)) :
    roundWithAccuracy Format.binary64 sign m e a =
      (Binary.canonical fm.mantissa u).unpacked sign := by
  unfold roundWithAccuracy
  rw [first]
  dsimp only
  rw [second]
  rfl

open Binary in
/-- What an operation knows of its exact result suffices to round it. -/
theorem exists_roundWithAccuracy (sign : Sign) {m : ℕ} {e : ℤ} {a : Accuracy} {q : ℚ}
    (tells : Tells a (q / 2 ^ e - m)) (fine : 2 ^ 52 ≤ m ∨ e ≤ -1074) :
    ∃ b : Binary, b.Canonical ∧ b.Rounds q ∧
      roundWithAccuracy Format.binary64 sign m e a = b.unpacked sign := by
  obtain ⟨⟨em, t⟩, first⟩ : ∃ shifted, shiftToTargetExponent Format.binary64 m e a = shifted :=
    ⟨_, rfl⟩
  have aligned := aligned_shiftToTargetExponent tells fine
  rw [first] at aligned
  obtain ⟨approximates, mantissa_lt, le_exponent, le_mantissa⟩ := aligned
  have nearest : Nearest em.roundedMantissa (q / 2 ^ t) := Tells.nearest approximates
  obtain ⟨below, above⟩ : em.mantissa ≤ em.roundedMantissa ∧
      em.roundedMantissa ≤ em.mantissa + 1 := roundToNearestEven_bounds em.mantissa em.accuracy
  obtain ⟨floor, next⟩ := Tells.bounds approximates
  dsimp only at floor next le_exponent le_mantissa
  by_cases carry : em.roundedMantissa = 2 ^ 53
  · have small : (em.mantissa : ℚ) + 1 ≤ 2 ^ 53 := by exact_mod_cast mantissa_lt
    rw [carry] at nearest
    have low := nearest.bounds.1
    push_cast at low
    refine ⟨canonical (2 ^ 52) (t + 1), canonical_canonical (by decide) (by omega)
      (fun _ => le_rfl), rounds_of_carry le_exponent low (by linarith), ?_⟩
    have second := shiftToTargetExponent_of_carry le_exponent
    rw [← carry] at second
    exact roundWithAccuracy_eq sign first second
  · have fits : em.roundedMantissa < 2 ^ 53 := by
      dsimp only at mantissa_lt
      omega
    refine ⟨canonical em.roundedMantissa t, canonical_canonical fits le_exponent
      (fun up => (le_mantissa up).trans below), rounds_of_nearest nearest ?_, ?_⟩
    · intro narrow
      simp only [canonical, decide_eq_true_eq] at narrow
      have full := le_mantissa narrow.2
      have same : em.roundedMantissa = em.mantissa := by omega
      change (em.roundedMantissa : ℚ) ≤ q / 2 ^ t
      rw [same]
      linarith
    · exact roundWithAccuracy_eq sign first (shiftToTargetExponent_of_lt fits le_exponent)

/-- The result is the one float that the exact number rounds to. -/
theorem roundWithAccuracy_of_rounds (sign : Sign) {m : ℕ} {e : ℤ} {a : Accuracy} {q : ℚ}
    (tells : Tells a (q / 2 ^ e - m)) (fine : 2 ^ 52 ≤ m ∨ e ≤ -1074) {b : Binary}
    (canonical : b.Canonical) (rounds : b.Rounds q) :
    roundWithAccuracy Format.binary64 sign m e a = b.unpacked sign := by
  obtain ⟨c, canonical', rounds', result⟩ := exists_roundWithAccuracy sign tells fine
  rw [result, canonical'.eq_of_rounds canonical rounds' rounds]

theorem mul_of_rounds {s t : Sign} {m n : ℕ} {e f : ℤ} {pos : 0 < m} {pos' : 0 < n}
    (fine : 2 ^ 52 ≤ m * n) {b : Binary} (canonical : b.Canonical)
    (rounds : b.Rounds (m * 2 ^ e * (n * 2 ^ f))) :
    UnpackedFloat.mul Format.binary64 (.finite s m e pos) (.finite t n f pos') =
      b.unpacked (s * t) := by
  refine roundWithAccuracy_of_rounds (s * t) ?_ (.inl fine) canonical rounds
  rw [Tells, zpow_add₀ (by norm_num)]
  push_cast
  field_simp
  ring

theorem tells_accuracyOfFraction {n d : ℕ} (lt : n < d) :
    Tells (accuracyOfFraction n d) ((n : ℚ) / d) := by
  have positive : (0 : ℚ) < d := by exact_mod_cast Nat.zero_lt_of_lt lt
  have below : (n : ℚ) < d := by exact_mod_cast lt
  unfold accuracyOfFraction
  split
  · next zero => simp [Tells, zero]
  · next some =>
    have left : (0 : ℚ) < n := by exact_mod_cast Nat.pos_of_ne_zero some
    cases order : compare (2 * n) d with
    | lt =>
      have half : ((2 * n : ℕ) : ℚ) < d := by exact_mod_cast compare_lt_iff_lt.mp order
      push_cast at half
      refine ⟨by positivity, ?_⟩
      rw [div_lt_iff₀ positive]
      linarith
    | eq =>
      have half : ((2 * n : ℕ) : ℚ) = d := by exact_mod_cast compare_eq_iff_eq.mp order
      push_cast at half
      rw [Tells, div_eq_iff positive.ne']
      linarith
    | gt =>
      have half : (d : ℚ) < (2 * n : ℕ) := by exact_mod_cast compare_gt_iff_gt.mp order
      push_cast at half
      refine ⟨?_, ?_⟩
      · rw [lt_div_iff₀ positive]
        linarith
      · rwa [div_lt_one positive]

/-- A quotient is computed to all the bits that are rounded to. -/
theorem divCore_fine {m n : ℕ} (pos : 0 < m) (pos' : 0 < n) (e f : ℤ) :
    2 ^ 52 ≤ (divCore Format.binary64 m e n f).1 ∨
      (divCore Format.binary64 m e n f).2.1 ≤ -1074 := by
  unfold divCore
  have limit : Format.binary64.targetExponent (totalExponent m e - totalExponent n f) =
      max ((m.log2 : ℤ) + e - n.log2 - f - 53) (-1074) := by
    change max (((m.log2 : ℤ) + 1 + e) - (n.log2 + 1 + f) - 53) (-1074) = _
    congr 1
    ring
  rw [limit]
  dsimp only
  by_cases least : (m.log2 : ℤ) + e - n.log2 - f - 53 ≤ -1074
  · right
    omega
  · left
    have shift : n.log2 + 53 ≤ m.log2 +
        (e - f - min (e - f) (max ((m.log2 : ℤ) + e - n.log2 - f - 53) (-1074))).toNat := by omega
    generalize (e - f - min (e - f) (max ((m.log2 : ℤ) + e - n.log2 - f - 53) (-1074))).toNat = k
      at shift
    rw [Nat.le_div_iff_mul_le pos', Nat.shiftLeft_eq]
    calc 2 ^ 52 * n ≤ 2 ^ 52 * 2 ^ (n.log2 + 1) := Nat.mul_le_mul_left _ Nat.lt_log2_self.le
      _ = 2 ^ (n.log2 + 53) := by rw [← pow_add]; congr 1; omega
      _ ≤ 2 ^ (m.log2 + k) := Nat.pow_le_pow_right (by decide) shift
      _ = 2 ^ m.log2 * 2 ^ k := pow_add _ _ _
      _ ≤ m * 2 ^ k := Nat.mul_le_mul_right _ (Nat.log2_self_le pos.ne')

theorem divCore_tells {m n : ℕ} (pos' : 0 < n) (e f : ℤ) :
    Tells (divCore Format.binary64 m e n f).2.2
      (m * 2 ^ e / (n * 2 ^ f) / 2 ^ (divCore Format.binary64 m e n f).2.1 -
        ((divCore Format.binary64 m e n f).1 : ℕ)) := by
  unfold divCore
  dsimp only
  generalize target_eq :
    min (e - f) (Format.binary64.targetExponent (totalExponent m e - totalExponent n f)) = target
  obtain ⟨k, shift⟩ : ∃ k : ℕ, e - f - target = k := ⟨(e - f - target).toNat, by omega⟩
  have positive : (n : ℚ) ≠ 0 := by exact_mod_cast pos'.ne'
  have exact_quotient : (m : ℚ) * 2 ^ e / (n * 2 ^ f) / 2 ^ target = (m <<< k : ℕ) / n := by
    have power : (2 : ℚ) ^ e = 2 ^ f * 2 ^ target * 2 ^ k := by
      rw [← zpow_natCast, ← shift, ← zpow_add₀ (by norm_num), ← zpow_add₀ (by norm_num)]
      congr 1
      ring
    rw [Nat.shiftLeft_eq, power]
    push_cast
    field_simp
  have parts : ((m <<< k : ℕ) : ℚ) = n * (m <<< k / n : ℕ) + (m <<< k % n : ℕ) := by
    exact_mod_cast (Nat.div_add_mod (m <<< k) n).symm
  rw [shift, Int.toNat_natCast, exact_quotient]
  have rest := tells_accuracyOfFraction (Nat.mod_lt (m <<< k) pos')
  convert rest using 1
  rw [parts]
  field_simp
  ring

theorem div_of_rounds {s t : Sign} {m n : ℕ} {e f : ℤ} {pos : 0 < m} {pos' : 0 < n} {b : Binary}
    (canonical : b.Canonical) (rounds : b.Rounds (m * 2 ^ e / (n * 2 ^ f))) :
    UnpackedFloat.div Format.binary64 (.finite s m e pos) (.finite t n f pos') =
      b.unpacked (s / t) :=
  roundWithAccuracy_of_rounds (s / t) (divCore_tells pos' e f) (divCore_fine pos pos' e f) canonical
    rounds

theorem pack_finite (sign : Sign) {m : ℕ} {e : ℤ} (pos : 0 < m) (fits : m < 2 ^ 53)
    (least : -1074 ≤ e) (greatest : e ≤ 971) :
    UnpackedFloat.pack Format.binary64 (.finite sign m e pos) =
      packComponents Format.binary64 sign
        (BitVec.ofNat 11 (if 2 ^ 52 ≤ m then (e + 1075).toNat else 0)) (BitVec.ofNat 52 m) := by
  have biased : (e + Format.binary64.exponentBias + Format.binary64.mantissaBitsWithoutImplicit) =
      e + 1075 := by
    change e + 1023 + 52 = _
    ring
  have inside : ¬2 ^ Format.binary64.exponentBits ≤ (e + 1075).toNat + 1 := by
    change ¬2 ^ 11 ≤ (e + 1075).toNat + 1
    omega
  have bits : m.log2 + 1 = Format.binary64.mantissaBits ↔ 2 ^ 52 ≤ m := by
    change m.log2 + 1 = 53 ↔ _
    rw [← Nat.le_log2 pos.ne']
    have := (Nat.log2_lt pos.ne').mpr fits
    omega
  rw [UnpackedFloat.pack]
  dsimp only
  rw [biased, if_neg inside]
  split
  · next normal =>
    rw [if_pos (bits.mp normal)]
  · next less =>
    rw [if_neg (fun full => less (bits.mpr full))]

/-- What the components of a float that is not special stand for. -/
theorem unpack_eq (v : BitVec Format.binary64.numBits)
    (ordinary : @unpackExponent Format.binary64 v ≠ -1#11) :
    UnpackedFloat.unpack Format.binary64 v =
      (if @unpackExponent Format.binary64 v = 0#11 then
        Binary.canonical (@unpackMantissa Format.binary64 v).toNat (-1074)
      else Binary.canonical (2 ^ 52 + (@unpackMantissa Format.binary64 v).toNat)
        ((@unpackExponent Format.binary64 v).toNat - 1075)).unpacked
        (Sign.ofBitVec (@unpackSign Format.binary64 v)) := by
  unfold UnpackedFloat.unpack
  dsimp only
  rw [if_neg ordinary]
  by_cases least : @unpackExponent Format.binary64 v = 0#11
  · rw [if_pos least, if_pos least]
    by_cases zero : @unpackMantissa Format.binary64 v = 0#52
    · rw [dif_pos zero]
      exact (Binary.unpacked_of_zero (congrArg BitVec.toNat zero) _).symm
    · have pos : 0 < (@unpackMantissa Format.binary64 v).toNat :=
        Nat.pos_of_ne_zero fun none => zero (BitVec.eq_of_toNat_eq none)
      rw [dif_neg zero, Binary.unpacked_of_pos pos, least]
      rfl
  · rw [if_neg least, if_neg least,
      Binary.unpacked_of_pos (b := Binary.canonical _ _) (Nat.add_pos_left (by decide) _)]
    congr 1
    exact toNat_one_append _

/-- The same for components that are given. -/
theorem unpack_packComponents (sign : Sign) {biased : ℕ} (ordinary : biased < 2047) (m : ℕ) :
    UnpackedFloat.unpack Format.binary64
      (packComponents Format.binary64 sign (BitVec.ofNat 11 biased) (BitVec.ofNat 52 m)) =
      (if biased = 0 then Binary.canonical (m % 2 ^ 52) (-1074)
      else Binary.canonical (2 ^ 52 + m % 2 ^ 52) (biased - 1075)).unpacked sign := by
  have exponent : @unpackExponent Format.binary64 (packComponents Format.binary64 sign
      (BitVec.ofNat 11 biased) (BitVec.ofNat 52 m)) = BitVec.ofNat 11 biased :=
    unpackExponent_packComponents
  have mantissa : @unpackMantissa Format.binary64 (packComponents Format.binary64 sign
      (BitVec.ofNat 11 biased) (BitVec.ofNat 52 m)) = BitVec.ofNat 52 m :=
    unpackMantissa_packComponents
  have value : (BitVec.ofNat 11 biased).toNat = biased := by
    rw [BitVec.toNat_ofNat, Nat.mod_eq_of_lt (by omega)]
  have least : BitVec.ofNat 11 biased = 0#11 ↔ biased = 0 := by
    rw [← BitVec.toNat_inj, value]
    rfl
  have other : BitVec.ofNat 11 biased ≠ -1#11 := by
    intro top
    have all : (-1#11).toNat = 2047 := rfl
    rw [← BitVec.toNat_inj, value, all] at top
    omega
  rw [unpack_eq _ (by rw [exponent]; exact other), exponent, mantissa, unpackSign_packComponents,
    Sign.ofBitVec_toBitVec, value, BitVec.toNat_ofNat]
  simp only [least]

/-- Nothing is lost when a float is packed. -/
theorem unpack_pack {b : Binary} (canonical : b.Canonical) (bounded : b.exponent ≤ 971)
    (sign : Sign) : (Float.Model.pack (b.unpacked sign)).unpack = b.unpacked sign := by
  change UnpackedFloat.unpack Format.binary64 (UnpackedFloat.pack Format.binary64 _) = _
  obtain zero | pos := Nat.eq_zero_or_pos b.mantissa
  · rw [Binary.unpacked_of_zero zero]
    exact unpack_packedZero
  · obtain ⟨fits, least, full, -⟩ := canonical
    have same {m : ℕ} {e : ℤ} (mantissa : m = b.mantissa) (exponent : e = b.exponent) :
        (Binary.canonical m e).unpacked sign = .finite sign b.mantissa b.exponent pos := by
      subst mantissa exponent
      exact Binary.unpacked_of_pos (b := Binary.canonical _ _) pos sign
    rw [Binary.unpacked_of_pos pos, pack_finite sign pos fits least bounded,
      unpack_packComponents sign (by split <;> omega)]
    by_cases normal : 2 ^ 52 ≤ b.mantissa
    · rw [if_pos normal, if_neg (by omega)]
      exact same (by omega) (by omega)
    · rw [if_neg normal, if_pos rfl]
      exact same (by omega) (by omega)

end BlockScript
