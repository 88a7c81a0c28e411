import Mathlib.Algebra.Order.Ring.Nat
/-!
Floats as their own operations see them.

A float unpacks to a sign, a mantissa and an exponent, or to something special. Comparing floats is
comparing what they unpack to, and shifting a mantissa to the right is dividing it.
-/

namespace BlockScript

open Float.Model Float.Model.UnpackedFloat

theorem float_lt_iff (x y : Float) :
    x < y ↔ UnpackedFloat.lt x.toModel.unpack y.toModel.unpack = true := by
  change decide (x.toModel < y.toModel) = true ↔ _
  rw [decide_eq_true_iff]
  exact Iff.rfl

theorem float_le_iff (x y : Float) :
    x ≤ y ↔ UnpackedFloat.le x.toModel.unpack y.toModel.unpack = true := by
  change decide (x.toModel ≤ y.toModel) = true ↔ _
  rw [decide_eq_true_iff]
  exact Iff.rfl

theorem float_lt_zero_iff (x : Float) :
    x < 0.0 ↔ UnpackedFloat.lt x.toModel.unpack (.zero .positive) = true :=
  float_lt_iff x 0.0

theorem float_pos_iff (x : Float) :
    x > 0.0 ↔ UnpackedFloat.lt (.zero .positive) x.toModel.unpack = true :=
  float_lt_iff 0.0 x

theorem shifted_mantissa (em : ExtendedMantissa) (k : Nat) :
    (em >>> k).mantissa = em.mantissa / 2 ^ k := by
  change (Nat.repeat ExtendedMantissa.shiftRightOne k em).mantissa = _
  induction k with
  | zero => simp [Nat.repeat]
  | succ k ih =>
    change (Nat.repeat ExtendedMantissa.shiftRightOne k em).mantissa / 2 = _
    rw [ih, Nat.div_div_eq_div_mul, Nat.pow_succ]

/-- The whole mantissa of a float has a bit that is not stored. -/
theorem toNat_one_append (v : BitVec 52) : (1#1 ++ v).toNat = 2 ^ 52 + v.toNat := by
  rw [BitVec.toNat_append, ← Nat.shiftLeft_add_eq_or_of_lt v.isLt]
  rfl

end BlockScript
