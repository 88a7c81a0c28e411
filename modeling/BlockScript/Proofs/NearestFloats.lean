import BlockScript.Decimal.Reading
import BlockScript.Proofs.FloatRounding
/-!
A decimal is read as the float it rounds to.

Short decimals are read by one operation on floats that are exact, all others by one operation on
numbers of any size. Either way the exact result is rounded once. Decimals of a magnitude far
outside the range of floats round to none, or to zero.
-/

namespace BlockScript

open Float.Model Float.Model.UnpackedFloat

namespace Binary

theorem exists_unpack {x : Float} (finite : x.toModel.unpack.isFinite = true) :
    ∃ sign, x.toModel.unpack = (ofFloat x).unpacked sign := by
  have fields := matches_unpack x
  cases shape : x.toModel.unpack with
  | infinity => rw [shape] at finite; cases finite
  | notANumber => rw [shape] at finite; cases finite
  | zero sign =>
    rw [shape] at fields
    exact ⟨sign, (unpacked_of_zero fields sign).symm⟩
  | finite sign m e pos =>
    rw [shape] at fields
    obtain ⟨rfl, rfl⟩ := fields
    exact ⟨sign, (unpacked_of_pos pos sign).symm⟩

theorem exponent_ofFloat_le {x : Float} (finite : x.toModel.unpack.isFinite = true) :
    (ofFloat x).exponent ≤ 971 := by
  have biased := (fields x).2
  have ordinary : @unpackExponent Format.binary64 x.toModel.toBits.toBitVec ≠ -1#11 := by
    intro special
    unfold Float.Model.unpack UnpackedFloat.unpack at finite
    dsimp only at finite
    rw [if_pos special] at finite
    split at finite <;> cases finite
  have small : x.toBits.toNat / Nat.pow 2 52 % Nat.pow 2 11 ≠ 2047 := by
    rw [← biased]
    intro top
    exact ordinary (BitVec.eq_of_toNat_eq top)
  have bound : x.toBits.toNat / Nat.pow 2 52 % Nat.pow 2 11 < Nat.pow 2 11 :=
    Nat.mod_lt _ (by decide)
  rw [ofFloat]
  generalize x.toBits.toNat / Nat.pow 2 52 % Nat.pow 2 11 = biased at *
  simp only [Nat.pow_eq] at bound
  split
  · simp
  · dsimp only
    omega

/-- The magnitudes of finite floats. -/
structure InRange (b : Binary) : Prop where
  canonical : b.Canonical
  exponent_le : b.exponent ≤ 971

theorem inRange_ofFloat {x : Float} (finite : x.toModel.unpack.isFinite = true) :
    (ofFloat x).InRange :=
  ⟨canonical_ofFloat x, exponent_ofFloat_le finite⟩

theorem neg_unpacked (b : Binary) (sign : Sign) : (b.unpacked sign).neg = b.unpacked (-sign) := by
  unfold unpacked
  split <;> rfl

theorem InRange.unpack_neg {b : Binary} (range : b.InRange) {x : Float} {sign : Sign}
    (shape : x.toModel.unpack = b.unpacked sign) : (-x).toModel.unpack = b.unpacked (-sign) := by
  change (Float.Model.pack x.toModel.unpack.neg).unpack = _
  rw [shape, neg_unpacked, unpack_pack range.canonical range.exponent_le]

end Binary

/-- A float that is exactly a positive number, with all bits of its mantissa. -/
def Exactly (x : Float) (q : ℚ) : Prop :=
  ∃ m e, ∃ pos : 0 < m, x.toModel.unpack = .finite .positive m e pos ∧ 2 ^ 52 ≤ m ∧
    (m : ℚ) * 2 ^ e = q

theorem ofUInt64_eq {n k : ℕ} (pos : 0 < n) (fits : n < 2 ^ 53) (shift : n.log2 + k = 52) :
    UnpackedFloat.ofUInt64 Format.binary64 n.toUInt64 =
      roundWithAccuracy Format.binary64 .positive (n * 2 ^ k) (-k) .exact := by
  have whole : n.toUInt64.toNat = n := UInt64.toNat_ofNat_of_lt' (by
    change n < 2 ^ 64
    omega)
  have order : compare (n : ℤ) 0 = .gt := compare_gt_iff_gt.mpr (by exact_mod_cast pos)
  have amount : (0 - max ((n.log2 : ℤ) + 1 + 0 - 53) (-1074)).toNat = k := by omega
  unfold UnpackedFloat.ofUInt64 UnpackedFloat.ofNat UnpackedFloat.ofInt UnpackedFloat.normalize
  rw [whole, order]
  dsimp only
  unfold UnpackedFloat.round decreaseExponent
  rw [targetExponent_eq, Int.toNat_natCast]
  dsimp only
  rw [amount, Nat.shiftLeft_eq, zero_sub]

/-- Whole numbers of few enough bits are floats. -/
theorem exactly_toFloat {n : ℕ} (pos : 0 < n) (fits : n < 2 ^ 53) :
    Exactly n.toUInt64.toFloat n := by
  have bits : n.log2 ≤ 52 := Nat.lt_succ_iff.mp ((Nat.log2_lt pos.ne').mpr fits)
  obtain ⟨k, shift⟩ : ∃ k, n.log2 + k = 52 := ⟨52 - n.log2, by omega⟩
  have full : 2 ^ 52 ≤ n * 2 ^ k := by
    rw [← shift, pow_add]
    exact Nat.mul_le_mul_right _ (Nat.log2_self_le pos.ne')
  have small : n * 2 ^ k < 2 ^ 53 := by
    have : (53 : ℕ) = n.log2 + 1 + k := by omega
    rw [this, pow_add]
    exact Nat.mul_lt_mul_of_pos_right Nat.lt_log2_self (by positivity)
  have canonical : (Binary.canonical (n * 2 ^ k) (-k)).Canonical :=
    Binary.canonical_canonical small (by omega) (fun _ => full)
  have rounds : (Binary.canonical (n * 2 ^ k) (-k)).Rounds n := by
    have value : (Binary.canonical (n * 2 ^ k) (-k)).value = n := by
      simp [Binary.value, Binary.canonical]
    have self := (Binary.canonical (n * 2 ^ k) (-k)).rounds_value
    rwa [value] at self
  have rounded : UnpackedFloat.ofUInt64 Format.binary64 n.toUInt64 =
      (Binary.canonical (n * 2 ^ k) (-k)).unpacked .positive := by
    rw [ofUInt64_eq pos fits shift]
    refine roundWithAccuracy_of_rounds .positive ?_ (.inl full) canonical rounds
    rw [Tells]
    push_cast
    simp
  have pos' : 0 < n * 2 ^ k := by positivity
  refine ⟨n * 2 ^ k, -k, pos', ?_, full, by simp⟩
  change (Float.Model.pack (UnpackedFloat.ofUInt64 Format.binary64 n.toUInt64)).unpack = _
  rw [rounded, unpack_pack canonical (by simp only [Binary.canonical]; omega)]
  exact Binary.unpacked_of_pos (b := Binary.canonical _ _) pos' .positive

/-- The table of powers of ten holds what it is said to hold. -/
theorem powersOfTen_fields : ∀ e : Fin Float.exactlyRepresentablePowersOfTen.size,
    let x := Float.exactlyRepresentablePowersOfTen[e]
    let b := Binary.ofFloat x
    x.toModel.unpack.isFinite = true ∧ ¬x < 0.0 ∧ 2 ^ 52 ≤ b.mantissa ∧
      b.mantissa * 2 ^ b.exponent.toNat = 10 ^ e.val * 2 ^ (-b.exponent).toNat := by
  decide +kernel

theorem exactly_powerOfTen {e : ℕ} (listed : e < Float.exactlyRepresentablePowersOfTen.size) :
    Exactly Float.exactlyRepresentablePowersOfTen[e] (10 ^ e : ℕ) := by
  obtain ⟨finite, unsigned, full, scaled⟩ := powersOfTen_fields ⟨e, listed⟩
  simp only [Fin.getElem_fin] at finite unsigned full scaled
  generalize Float.exactlyRepresentablePowersOfTen[e] = x at *
  have pos : 0 < (Binary.ofFloat x).mantissa := by omega
  obtain ⟨sign, shape⟩ := Binary.exists_unpack finite
  rw [Binary.unpacked_of_pos pos] at shape
  have positive : sign = .positive := by
    cases sign with
    | positive => rfl
    | negative =>
      rw [float_lt_zero_iff, unpacked_lt_zero_iff, shape] at unsigned
      exact absurd (.inr ⟨_, _, pos, rfl⟩) unsigned
  rw [positive] at shape
  refine ⟨_, _, pos, shape, full, ?_⟩
  have twos := Binary.natCast_pow_toNat 2 (by decide) (Binary.ofFloat x).exponent
  have nonzero : (((2 ^ (-(Binary.ofFloat x).exponent).toNat : ℕ)) : ℚ) ≠ 0 := by positivity
  have cast : ((Binary.ofFloat x).mantissa : ℚ) * (2 ^ (Binary.ofFloat x).exponent.toNat : ℕ) =
      (10 ^ e : ℕ) * (2 ^ (-(Binary.ofFloat x).exponent).toNat : ℕ) := by exact_mod_cast scaled
  apply mul_right_cancel₀ nonzero
  rw [← cast, mul_assoc]
  congr 1
  exact twos.symm

namespace Binary.InRange

variable {b : Binary} (range : b.InRange)
include range

theorem unpack_mul {x y : Float} {p q : ℚ} (left : Exactly x p) (right : Exactly y q)
    (rounds : b.Rounds (p * q)) : (x * y).toModel.unpack = b.unpacked .positive := by
  obtain ⟨m, e, pos, shape, full, rfl⟩ := left
  obtain ⟨n, f, pos', shape', -, rfl⟩ := right
  have fine : 2 ^ 52 ≤ m * n := full.trans (Nat.le_mul_of_pos_right m pos')
  change (Float.Model.pack (UnpackedFloat.mul _ x.toModel.unpack y.toModel.unpack)).unpack = _
  rw [shape, shape', mul_of_rounds fine range.canonical rounds]
  exact unpack_pack range.canonical range.exponent_le .positive

theorem unpack_div {x y : Float} {p q : ℚ} (left : Exactly x p) (right : Exactly y q)
    (rounds : b.Rounds (p / q)) : (x / y).toModel.unpack = b.unpacked .positive := by
  obtain ⟨m, e, pos, shape, -, rfl⟩ := left
  obtain ⟨n, f, pos', shape', -, rfl⟩ := right
  change (Float.Model.pack (UnpackedFloat.div _ x.toModel.unpack y.toModel.unpack)).unpack = _
  rw [shape, shape', div_of_rounds range.canonical rounds]
  exact unpack_pack range.canonical range.exponent_le .positive

/-- A decimal with a power of ten that is not too large is read as the float it rounds to. -/
theorem unpack_ofScientific {m k : ℕ} (pos : 0 < m) (bound : k ≤ 2 ^ 11)
    (rounds : b.Rounds (m * 10 ^ k)) :
    (Float.ofScientific m false k).toModel.unpack = b.unpacked .positive := by
  unfold Float.ofScientific
  split
  · next short =>
    have power := exactly_powerOfTen (e := k) (by
      change k < 23
      omega)
    push_cast at power
    exact range.unpack_mul (exactly_toFloat pos short.1) power rounds
  · change (Float.Model.pack (UnpackedFloat.ofScientific Format.binary64 m k)).unpack = _
    have fine : 2 ^ 52 ≤ (m <<< 53) * 10 ^ k := by
      rw [Nat.shiftLeft_eq]
      have some : 0 < m * 10 ^ k := by positivity
      calc 2 ^ 52 ≤ 2 ^ 53 := by decide
        _ ≤ 2 ^ 53 * (m * 10 ^ k) := Nat.le_mul_of_pos_right _ some
        _ = m * 2 ^ 53 * 10 ^ k := by ring
    have scaled : b.Rounds ((m <<< 53 : ℕ) * 2 ^ (-53 : ℤ) * ((10 ^ k : ℕ) * 2 ^ (0 : ℤ))) := by
      rw [Nat.shiftLeft_eq]
      push_cast
      convert rounds using 1
      field_simp
      norm_num
    have product : UnpackedFloat.ofScientific Format.binary64 m k = b.unpacked .positive := by
      unfold UnpackedFloat.ofScientific
      rw [dif_neg pos.ne', if_neg, if_neg, if_pos (Int.natCast_nonneg k)]
      · exact mul_of_rounds fine range.canonical scaled
      · change ¬(k : ℤ) < -(2 ^ 11 + m.log2)
        omega
      · change ¬(k : ℤ) > 2 ^ 11
        omega
    rw [product]
    exact unpack_pack range.canonical range.exponent_le .positive

theorem unpack_ofScientific_div {m k : ℕ} (pos : 0 < m) (some : 0 < k)
    (bound : k ≤ 2 ^ 11 + m.log2) (rounds : b.Rounds (m / 10 ^ k)) :
    (Float.ofScientific m true k).toModel.unpack = b.unpacked .positive := by
  unfold Float.ofScientific
  split
  · next short =>
    have power := exactly_powerOfTen (e := k) (by
      change k < 23
      omega)
    push_cast at power
    exact range.unpack_div (exactly_toFloat pos short.1) power rounds
  · have exponent : Int.negOfNat k = -(k : ℤ) := Int.negOfNat_eq
    change (Float.Model.pack (UnpackedFloat.ofScientific Format.binary64 m (Int.negOfNat k))).unpack
      = _
    have scaled : b.Rounds (m * 2 ^ (0 : ℤ) / ((10 ^ k : ℕ) * 2 ^ (0 : ℤ))) := by
      push_cast
      simpa using rounds
    have quotient : UnpackedFloat.ofScientific Format.binary64 m (-(k : ℤ)) =
        b.unpacked .positive := by
      unfold UnpackedFloat.ofScientific
      rw [dif_neg pos.ne', if_neg, if_neg, if_neg]
      · simp only [neg_neg, Int.toNat_natCast]
        exact div_of_rounds range.canonical scaled
      · omega
      · change ¬-(k : ℤ) < -(2 ^ 11 + m.log2)
        omega
      · change ¬-(k : ℤ) > 2 ^ 11
        omega
    rw [exponent, quotient]
    exact unpack_pack range.canonical range.exponent_le .positive

end Binary.InRange

namespace Binary

/-- Where decimals are cut off is outside the range of floats. -/
theorem two_zpow_lt_ten_zpow : (2 : ℚ) ^ (1075 : ℤ) < 10 ^ (400 : ℤ) := by
  have whole : 2 ^ 1075 < 10 ^ 400 := by decide +kernel
  exact_mod_cast whole

/-- Nothing but zero is as small as this. -/
theorem Canonical.mantissa_eq_zero {b : Binary} (canonical : b.Canonical) {q : ℚ}
    (rounds : b.Rounds q) (small : q < 2 ^ (-1075 : ℤ)) : b.mantissa = 0 := by
  by_contra some
  have one : (1 : ℚ) ≤ b.mantissa := by exact_mod_cast Nat.pos_of_ne_zero some
  have unit : (2 : ℚ) ^ (-1076 : ℤ) ≤ 2 ^ (b.exponent - 2) :=
    zpow_le_zpow_right₀ (by norm_num) (by linarith [canonical.le_exponent])
  have least : (2 : ℚ) ^ (-1075 : ℤ) ≤ b.lower := by
    calc (2 : ℚ) ^ (-1075 : ℤ) = 2 * 2 ^ (-1076 : ℤ) := by
          rw [← zpow_one_add₀ (by norm_num)]
          norm_num
      _ ≤ 2 * 2 ^ (b.exponent - 2) := by linarith
      _ ≤ b.lower := mul_le_mul_of_nonneg_right (by split <;> linarith) (by positivity)
  have above : b.lower ≤ q := by
    rw [Rounds] at rounds
    split at rounds
    · exact rounds.1
    · exact rounds.1.le
  linarith

/-- No finite float is as large as this. -/
theorem InRange.lt_of_rounds {b : Binary} (range : b.InRange) {q : ℚ} (rounds : b.Rounds q) :
    q < 2 ^ (1075 : ℤ) := by
  have mantissa : (b.mantissa : ℚ) + 1 ≤ 2 ^ 53 := by exact_mod_cast range.canonical.mantissa_lt
  have unit : (2 : ℚ) ^ (b.exponent - 2) ≤ 2 ^ (969 : ℤ) :=
    zpow_le_zpow_right₀ (by norm_num) (by linarith [range.exponent_le])
  have below : q ≤ b.upper := by
    rw [Rounds] at rounds
    split at rounds
    · exact rounds.2
    · exact rounds.2.le
  calc q ≤ b.upper := below
    _ ≤ 2 ^ 55 * 2 ^ (b.exponent - 2) := mul_le_mul_of_nonneg_right (by linarith) (by positivity)
    _ ≤ 2 ^ 55 * 2 ^ (969 : ℤ) := by linarith
    _ < 2 ^ (1075 : ℤ) := by
      rw [← zpow_natCast, ← zpow_add₀ (by norm_num)]
      exact zpow_lt_zpow_right₀ (by norm_num) (by norm_num)

end Binary

namespace Decimal

/-- The magnitude by which decimals are told to be out of range. -/
theorem magnitude_bounds {m : ℕ} (pos : m ≠ 0) (e : ℤ) :
    (10 : ℚ) ^ ((Nat.toDigits 10 m).length + e - 1) ≤ m * 10 ^ e ∧
      (m : ℚ) * 10 ^ e < 10 ^ ((Nat.toDigits 10 m).length + e) := by
  have some : 0 < (Nat.toDigits 10 m).length := List.length_pos_iff.mpr Nat.toDigits_ne_nil
  obtain ⟨low, high⟩ := length_toDigits_bounds pos
  generalize (Nat.toDigits 10 m).length = length at *
  have below : ((10 : ℚ) ^ (length - 1)) ≤ m := by exact_mod_cast low
  have above : (m : ℚ) < 10 ^ length := by exact_mod_cast high
  have split : (length : ℤ) + e - 1 = (length - 1 : ℕ) + e := by omega
  rw [split, zpow_add₀ (by norm_num), zpow_add₀ (by norm_num), zpow_natCast, zpow_natCast]
  exact ⟨mul_le_mul_of_nonneg_right below (by positivity),
    mul_lt_mul_of_pos_right above (by positivity)⟩

theorem length_toDigits_le {m : ℕ} (pos : m ≠ 0) : (Nat.toDigits 10 m).length ≤ m.log2 + 1 := by
  have low := (length_toDigits_bounds pos).1
  have twos : 2 ^ ((Nat.toDigits 10 m).length - 1) ≤ m :=
    (Nat.pow_le_pow_left (by decide) _).trans low
  have bits := (Nat.le_log2 pos).mpr twos
  omega

/-- A decimal is read as the float it rounds to. -/
theorem unpack_nearest {b : Binary} (range : b.InRange) {m : ℕ} {e : ℤ}
    (rounds : b.Rounds (m * 10 ^ e)) : (nearest m e).toModel.unpack = b.unpacked .positive := by
  unfold nearest
  split
  · next zero =>
    have none := range.canonical.mantissa_eq_zero rounds (by rw [zero]; simp)
    exact (Binary.unpacked_of_zero none .positive).symm
  next pos =>
  obtain ⟨low, high⟩ := magnitude_bounds pos e
  have bits := length_toDigits_le pos
  have some : 0 < (Nat.toDigits 10 m).length := List.length_pos_iff.mpr Nat.toDigits_ne_nil
  dsimp only
  split
  · next large =>
    have huge : (10 : ℚ) ^ (400 : ℤ) ≤ m * 10 ^ e :=
      le_trans (zpow_le_zpow_right₀ (by norm_num) (by omega)) low
    exact absurd (range.lt_of_rounds rounds)
      (not_lt.mpr (Binary.two_zpow_lt_ten_zpow.le.trans huge))
  split
  · next _ small =>
    have tiny : (m : ℚ) * 10 ^ e < 10 ^ (-400 : ℤ) :=
      lt_of_lt_of_le high (zpow_le_zpow_right₀ (by norm_num) (by omega))
    have limit : (10 : ℚ) ^ (-400 : ℤ) < 2 ^ (-1075 : ℤ) := by
      rw [zpow_neg, zpow_neg]
      exact inv_strictAnti₀ (by positivity) Binary.two_zpow_lt_ten_zpow
    have none := range.canonical.mantissa_eq_zero rounds (tiny.trans limit)
    exact (Binary.unpacked_of_zero none .positive).symm
  split
  · next before =>
    refine range.unpack_ofScientific (Nat.pos_of_ne_zero pos) (by omega) ?_
    rwa [← zpow_natCast, Int.toNat_of_nonneg before]
  · next after =>
    refine range.unpack_ofScientific_div (Nat.pos_of_ne_zero pos) (by omega) (by omega) ?_
    rw [div_eq_mul_inv, ← zpow_natCast, ← zpow_neg, Int.toNat_of_nonneg (by omega), neg_neg]
    exact rounds

end Decimal

end BlockScript
