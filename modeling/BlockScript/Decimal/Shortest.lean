/-!
The shortest decimal that reads back as a given binary number.

A positive float is `mantissa · 2^exponent`. Every real in a small interval around it rounds to
it; the interval includes its ends when the mantissa is even. `shortest` looks for the coarsest
decimal grid with a point in that interval, and takes the nearest such point.
-/

namespace BlockScript

/-- The number `digits · 10^exponent`. -/
structure Decimal where
  digits : Nat
  exponent : Int
  deriving DecidableEq, Repr

/-- The number `mantissa · 2^exponent`. `narrow` marks a number whose lower neighbour is only
half as far away as its upper one. -/
structure Binary where
  mantissa : Nat
  exponent : Int
  narrow : Bool
  deriving DecidableEq, Repr

/-- Which of two equally near decimals is taken. -/
inductive Tie where
  | up
  | even
  deriving DecidableEq, Repr

namespace Binary

/-- The magnitude of a finite float. -/
def ofFloat (x : Float) : Binary :=
  let bits := x.toBits.toNat
  let fraction := bits % Nat.pow 2 52
  let biased : Nat := bits / Nat.pow 2 52 % Nat.pow 2 11
  if biased = 0 then
    { mantissa := fraction, exponent := -1074, narrow := false }
  else
    { mantissa := Nat.pow 2 52 + fraction, exponent := (biased : Int) - 1075,
      narrow := fraction = 0 && 1 < biased }

/-- The number itself, if it is whole. -/
def whole? (b : Binary) : Option Nat :=
  let unit := Nat.pow 2 (-b.exponent).toNat
  if b.mantissa % unit = 0 then some (b.mantissa / unit * Nat.pow 2 b.exponent.toNat) else none

/-- Numerator and denominator of the number divided by four times its mantissa. -/
def quarterUnit (b : Binary) : Nat × Nat :=
  (Nat.pow 2 (b.exponent - 2).toNat, Nat.pow 2 (2 - b.exponent).toNat)

/-- The least `k` with `num / den < 10^k`, for a positive fraction. -/
def magnitude (num den : Nat) : Int :=
  if den ≤ num then (Nat.toDigits 10 (num / den)).length
  else
    let length := (Nat.toDigits 10 (den / num)).length
    if den ≤ num * Nat.pow 10 (length - 1) then 2 - (length : Int) else 1 - (length : Int)

/-- Whether the number `d · 10^place` rounds to `b`. -/
def hits (b : Binary) (place : Int) (d : Nat) : Bool :=
  let (num, den) := b.quarterUnit
  let a := num * Nat.pow 10 (-place).toNat
  let c := den * Nat.pow 10 place.toNat
  let high := (4 * b.mantissa + 2) * a
  let low := (4 * b.mantissa - if b.narrow then 1 else 2) * a
  let closed := b.mantissa % 2 == 0
  if closed then low ≤ d * c && d * c ≤ high else low < d * c && d * c < high

/-- The point of the grid of multiples of `10^place` that rounds to `b`, if there is one. -/
def onGrid (b : Binary) (tie : Tie) (place : Int) : Option Nat :=
  let (num, den) := b.quarterUnit
  let value := 4 * b.mantissa * (num * Nat.pow 10 (-place).toNat)
  let unit := den * Nat.pow 10 place.toNat
  let below := value / unit
  let above := below + 1
  match b.hits place below, b.hits place above with
  | false, false => none
  | true, false => some below
  | false, true => some above
  | true, true =>
    let down := value - below * unit
    let up := above * unit - value
    if down < up then some below
    else if up < down then some above
    else match tie with
      | .up => some above
      | .even => some (if below % 2 = 0 then below else above)

end Binary

namespace Decimal

/-- The same number with no trailing zero among its digits; `fuel` bounds the zeros dropped. -/
def dropZeros : (fuel : Nat) → Decimal → Decimal
  | 0, d => d
  | fuel + 1, d =>
    if d.digits ≠ 0 ∧ d.digits % 10 = 0 then
      dropZeros fuel { digits := d.digits / 10, exponent := d.exponent + 1 }
    else d

/-- The grid point found with the fewest digits, from `count` digits on. -/
def search (b : Binary) (tie : Tie) (magnitude : Int) : (tries count : Nat) → Decimal
  | 0, _ => { digits := b.mantissa, exponent := 0 }
  | tries + 1, count =>
    let place := magnitude - count
    match b.onGrid tie place with
    | some digits => dropZeros count { digits := digits, exponent := place }
    | none => search b tie magnitude tries (count + 1)

/-- The fewest digits that read back as the finite float `x`, its sign left out. Seventeen digits
always suffice. -/
def shortest (tie : Tie) (x : Float) : Decimal :=
  let b := Binary.ofFloat x
  if b.mantissa = 0 then { digits := 0, exponent := 0 }
  else
    let (num, den) := b.quarterUnit
    search b tie (Binary.magnitude (4 * b.mantissa * num) den) 17 1

end Decimal

end BlockScript
