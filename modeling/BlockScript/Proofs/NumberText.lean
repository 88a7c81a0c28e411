import BlockScript.Json.Printing
import BlockScript.Proofs.DigitRuns
import BlockScript.Proofs.TextGrammar
/-!
Every finite number is written as a number.

The digits found for a float have no leading zero, unless it is zero and has no other digit. So what
is laid out of them, with a point or with an exponent, is a number of the grammar.
-/

namespace BlockScript

namespace Decimal

theorem digits_toDigits (n : Nat) : Json.Digits (Nat.toDigits 10 n) where
  nonempty := Nat.toDigits_ne_nil
  digits _ mem := Nat.isDigit_of_mem_toDigits (by omega) (by omega) mem

/-- The digits of a number other than zero do not start with a zero: without it they would stand for
the same number. -/
theorem head_toDigits {n : Nat} (positive : n ≠ 0) : (Nat.toDigits 10 n).head? ≠ some '0' := by
  intro zero
  obtain ⟨ds, eq⟩ : ∃ ds, Nat.toDigits 10 n = '0' :: ds := by
    cases h : Nat.toDigits 10 n with
    | nil => exact absurd h Nat.toDigits_ne_nil
    | cons d ds =>
      rw [h] at zero
      cases zero
      exact ⟨ds, rfl⟩
  have value : ofDigits ds = n := by
    have whole : ofDigits (Nat.toDigits 10 n) = n := by
      rw [ofDigits_eq_ofDigitChars, Nat.ofDigitChars_ten_toDigits]
    rw [eq] at whole
    exact whole
  have small : n < Nat.pow 10 ds.length := by
    rw [← value]
    exact ofDigits_lt fun c mem => (digits_toDigits n).digits c (eq ▸ List.mem_cons_of_mem _ mem)
  by_cases none_left : ds = []
  · subst none_left
    exact positive value.symm
  · have left : 0 < ds.length := List.length_pos_iff.mpr none_left
    have short := (Nat.length_toDigits_le_iff (by omega) left).mpr small
    rw [eq, List.length_cons] at short
    omega

/-- Zero has no places. -/
def Normal (d : Decimal) : Prop :=
  d.digits = 0 → d.exponent = 0

end Decimal

namespace Binary

/-- The interval around a positive number does not reach down to zero. -/
theorem ne_zero_of_hits {b : Binary} (positive : b.mantissa ≠ 0) {place : Int} {d : Nat}
    (hit : b.hits place d = true) : d ≠ 0 := by
  rintro rfl
  have low_pos : 0 < (4 * b.mantissa - if b.narrow then 1 else 2) *
      (b.quarterUnit.1 * Nat.pow 10 (-place).toNat) := by
    refine Nat.mul_pos ?_ (Nat.mul_pos (Nat.pow_pos (by decide)) (Nat.pow_pos (by decide)))
    split <;> omega
  simp only [hits, Nat.zero_mul] at hit
  split at hit
  · simp only [Bool.and_eq_true, decide_eq_true_eq] at hit
    omega
  · simp only [Bool.and_eq_true, decide_eq_true_eq] at hit
    omega

theorem onGrid_hits {b : Binary} {tie : Tie} {place : Int} {digits : Nat}
    (found : b.onGrid tie place = some digits) : b.hits place digits = true := by
  revert found
  fun_cases onGrid b tie place with
  | case1 =>
    intro found
    cases found
  | case2 | case3 | case4 | case5 | case6 =>
    intro found
    rw [← Option.some.inj found]
    assumption
  | case7 =>
    intro found
    rw [← Option.some.inj found]
    split <;> assumption

theorem onGrid_ne_zero {b : Binary} (positive : b.mantissa ≠ 0) {tie : Tie} {place : Int}
    {digits : Nat} (found : b.onGrid tie place = some digits) : digits ≠ 0 :=
  ne_zero_of_hits positive (onGrid_hits found)

end Binary

namespace Decimal

theorem dropZeros_ne_zero {fuel : Nat} {d : Decimal} (positive : d.digits ≠ 0) :
    (dropZeros fuel d).digits ≠ 0 := by
  fun_induction dropZeros fuel d with
  | case1 => exact positive
  | case2 fuel d zeros ih =>
    apply ih
    dsimp only
    omega
  | case3 => exact positive

theorem search_ne_zero {b : Binary} (positive : b.mantissa ≠ 0) (tie : Tie) (magnitude : Int)
    (tries count : Nat) : (search b tie magnitude tries count).digits ≠ 0 := by
  fun_induction search b tie magnitude tries count with
  | case1 => exact positive
  | case2 _ _ _ _ found => exact dropZeros_ne_zero (Binary.onGrid_ne_zero positive found)
  | case3 _ _ _ _ ih => exact ih

theorem shortest_normal (tie : Tie) (x : Float) : (shortest tie x).Normal := by
  simp only [shortest]
  split
  · exact fun _ => rfl
  · next positive => exact fun zero => absurd zero (search_ne_zero positive _ _ _ _)

end Decimal

namespace Json

open NumberToken

/-- A number but for its sign. -/
def Unsigned (cs : List Char) : Prop :=
  ∀ negative : Bool, ∃ t : NumberToken, t.Spelled ((if negative then ['-'] else []) ++ cs)

theorem Unsigned.of_parts {whole point mark : List Char} {fraction : Option (List Char)}
    {exponent : Option Int} (digits : Digits whole)
    (leading : whole.head? = some '0' → whole.length = 1) (pointed : FractionSpelled fraction point)
    (marked : ExponentSpelled exponent mark) : Unsigned (whole ++ (point ++ mark)) :=
  fun negative => ⟨⟨negative, whole, fraction, exponent⟩, .mk digits leading pointed marked⟩

theorem digits_singleton {c : Char} (digit : c.isDigit) : Digits [c] :=
  ⟨List.cons_ne_nil c [], List.forall_mem_singleton.mpr digit⟩

theorem digits_zeros {n : Nat} : ∀ c ∈ List.replicate n '0', c.isDigit := by
  intro c mem
  rw [List.eq_of_mem_replicate mem]
  rfl

end Json

namespace Decimal

open Json

variable {d : Decimal}

theorem digits_digitChars (d : Decimal) : Digits d.digitChars :=
  digits_toDigits d.digits

theorem unsigned_positionalPoint (normal : d.Normal) : Unsigned d.positionalPoint := by
  have digits := d.digits_digitChars
  by_cases whole : 0 ≤ d.exponent
  · -- All digits stand before the point, and zeros fill up the places that are left.
    have places : ∀ c ∈ d.digitChars ++ List.replicate d.exponent.toNat '0', c.isDigit := by
      intro c mem
      obtain mem | mem := List.mem_append.mp mem
      · exact digits.digits c mem
      · exact digits_zeros c mem
    have leading (zero : (d.digitChars ++ List.replicate d.exponent.toNat '0').head? = some '0') :
        (d.digitChars ++ List.replicate d.exponent.toNat '0').length = 1 := by
      rw [List.head?_append, List.head?_eq_some_head digits.nonempty, Option.some_or,
        ← List.head?_eq_some_head] at zero
      by_cases none_left : d.digits = 0
      · rw [digitChars, none_left, normal none_left]
        rfl
      · exact absurd zero (head_toDigits none_left)
    have spelled := Unsigned.of_parts ⟨by simp [digits.nonempty], places⟩ leading
      (.point (digits_singleton (c := '0') rfl)) .none
    simpa [positionalPoint, positional, whole] using spelled
  · have positive : d.digits ≠ 0 := by
      intro zero
      rw [normal zero] at whole
      exact whole (Int.le_refl 0)
    by_cases inside : (-d.exponent).toNat < d.digitChars.length
    · -- The point stands between two digits.
      have left : Digits (d.digitChars.take (d.digitChars.length - (-d.exponent).toNat)) := by
        refine ⟨?_, fun c mem => digits.digits c (List.mem_of_mem_take mem)⟩
        simp only [ne_eq, List.take_eq_nil_iff, digits.nonempty, or_false]
        omega
      have right : Digits (d.digitChars.drop (d.digitChars.length - (-d.exponent).toNat)) := by
        refine ⟨?_, fun c mem => digits.digits c (List.mem_of_mem_drop mem)⟩
        simp only [ne_eq, List.drop_eq_nil_iff]
        omega
      have leading :
          (d.digitChars.take (d.digitChars.length - (-d.exponent).toNat)).head? ≠ some '0' := by
        rw [List.head?_take, if_neg (by omega)]
        exact head_toDigits positive
      have spelled := Unsigned.of_parts left (fun zero => absurd zero leading) (.point right) .none
      simpa [positionalPoint, positional, whole, inside] using spelled
    · -- Zeros stand before the digits, on both sides of the point.
      have right : Digits (List.replicate ((-d.exponent).toNat - d.digitChars.length) '0' ++
          d.digitChars) := by
        refine ⟨by simp [digits.nonempty], ?_⟩
        intro c mem
        obtain mem | mem := List.mem_append.mp mem
        · exact digits_zeros c mem
        · exact digits.digits c mem
      have spelled := Unsigned.of_parts (digits_singleton (c := '0') rfl) (fun _ => rfl)
        (.point right) .none
      simpa [positionalPoint, positional, whole, inside] using spelled

theorem unsigned_scientific (d : Decimal) : Unsigned d.scientific := by
  have digits := d.digits_digitChars
  obtain ⟨exponent, marked⟩ : ∃ exponent, NumberToken.ExponentSpelled exponent
      ((if d.leadingExponent < 0 then ['e', '-'] else ['e', '+']) ++
        Nat.toDigits 10 d.leadingExponent.natAbs) := by
    split
    · exact ⟨_, .minus (.inl rfl) (digits_toDigits _)⟩
    · exact ⟨_, .plus (.inl rfl) (digits_toDigits _)⟩
  unfold scientific
  split
  · next empty => exact absurd empty digits.nonempty
  · next c eq =>
    rw [eq] at digits
    have spelled := Unsigned.of_parts digits (fun _ => rfl) .none marked
    simpa using spelled
  · next c cs more eq =>
    rw [eq] at digits
    have first : Digits [c] := digits_singleton (digits.digits c List.mem_cons_self)
    have rest : Digits cs :=
      ⟨more, fun x mem => digits.digits x (List.mem_cons_of_mem c mem)⟩
    have spelled := Unsigned.of_parts first (fun _ => rfl) (.point rest) marked
    simpa using spelled

end Decimal

namespace Json.Number

/-- A number that is not a float out of bounds. -/
def Finite : Number → Prop
  | .float x => x.isFinite
  | _ => True

theorem unsigned_toDigits (n : Nat) : Unsigned (Nat.toDigits 10 n) := by
  have leading (zero : (Nat.toDigits 10 n).head? = some '0') : (Nat.toDigits 10 n).length = 1 := by
    by_cases positive : n = 0
    · rw [positive]
      rfl
    · exact absurd zero (Decimal.head_toDigits positive)
  have spelled := Unsigned.of_parts (Decimal.digits_toDigits n) leading .none .none
  rwa [List.append_nil, List.append_nil] at spelled

theorem spelled_chars {n : Number} (finite : n.Finite) : ∃ t : NumberToken, t.Spelled n.chars := by
  cases n with
  | nat n => exact unsigned_toDigits n false
  | negative n => exact unsigned_toDigits n true
  | float x =>
    have digits : Unsigned (if -5 ≤ (Decimal.shortest .even x).leadingExponent ∧
        (Decimal.shortest .even x).leadingExponent ≤ 15
        then (Decimal.shortest .even x).positionalPoint
        else (Decimal.shortest .even x).scientific) := by
      split
      · exact Decimal.unsigned_positionalPoint (Decimal.shortest_normal .even x)
      · exact Decimal.unsigned_scientific _
    change x.isFinite = true at finite
    rw [chars, floatChars, finite]
    cases sign : isNegative x with
    | true => exact digits true
    | false => exact digits false

end Json.Number

end BlockScript
