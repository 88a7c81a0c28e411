import BlockScript.Decimal.Shortest
/-!
The two ways to lay out a decimal: positional, and with an exponent mark.
-/

namespace BlockScript.Decimal

def digitChars (d : Decimal) : List Char :=
  Nat.toDigits 10 d.digits

/-- The exponent `e` for which the number is `d.ddd · 10^e`. -/
def leadingExponent (d : Decimal) : Int :=
  d.exponent + (d.digitChars.length : Int) - 1

/-- Digits around a point. The fraction is left out when it is empty. -/
def positional (d : Decimal) : List Char :=
  let ds := d.digitChars
  if 0 ≤ d.exponent then ds ++ List.replicate d.exponent.toNat '0'
  else
    let places := (-d.exponent).toNat
    if places < ds.length then
      ds.take (ds.length - places) ++ '.' :: ds.drop (ds.length - places)
    else
      '0' :: '.' :: List.replicate (places - ds.length) '0' ++ ds

/-- Digits around a point, with `.0` on a whole number. -/
def positionalPoint (d : Decimal) : List Char :=
  if 0 ≤ d.exponent then d.positional ++ ['.', '0'] else d.positional

/-- One digit, the fraction if there is one, and a signed exponent. -/
def scientific (d : Decimal) : List Char :=
  let e := d.leadingExponent
  let mark := if e < 0 then ['e', '-'] else ['e', '+']
  let tail := mark ++ Nat.toDigits 10 e.natAbs
  match d.digitChars with
  | [] => tail
  | [c] => c :: tail
  | c :: cs => c :: '.' :: cs ++ tail

end BlockScript.Decimal
