import BlockScript.Decimal.Reading
/-!
Decimals as floats by scaling: the leading digits, as many as 64 bits hold, are rounded to a float,
and that is multiplied or divided by a rounded power of ten. The result need not be the nearest
float, and it can be out of range where the nearest float is finite.
-/

namespace BlockScript.Decimal

/-- The largest power of ten that is a finite float. -/
def largestPower : Nat := 308

def powerOfTen (k : Nat) : Float :=
  nearest 1 k

/-- Appends digits to `n` while 64 bits hold the result. The digits from the first that does not
fit on are left over. -/
def absorb (n : Nat) : List Char → Nat × List Char
  | [] => (n, [])
  | d :: ds =>
    let m := 10 * n + digitValue d
    if m < Nat.pow 2 64 then absorb m ds else (n, d :: ds)

/-- Divides by `10^k`, in steps of the largest power while more than that remains. -/
def divide (x : Float) (k : Nat) : Float :=
  if k ≤ largestPower then x / powerOfTen k
  else if x == 0.0 then x
  else divide (x / powerOfTen largestPower) (k - largestPower)
termination_by k
decreasing_by simp only [largestPower] at *; omega

/-- The float `m · 10^e` scaled, for an `m` of 64 bits, unless it is out of range. -/
def scale? (m : Nat) (e : Int) : Option Float :=
  let x := m.toUInt64.toFloat
  if e < 0 then some (divide x (-e).toNat)
  else if m = 0 then some 0.0
  else if largestPower < e then none
  else
    let y := x * powerOfTen e.toNat
    if y.isFinite then some y else none

/-- The float of a number's digits before and after the point, and its exponent. Digits before the
point that are left over count as places only; after the point they do not count at all, though a
digit there may fit where one before the point did not. -/
def scaled? (whole fraction : List Char) (exponent : Int) : Option Float :=
  let (m, skipped) := absorb 0 whole
  let (m, ignored) := absorb m fraction
  scale? m (exponent + skipped.length - (fraction.length - ignored.length : Nat))

end BlockScript.Decimal
