import BlockScript.Text.Blank
/-!
Reading numbers from text: decimals as floats, and counts of 64 bits.
-/

namespace BlockScript.Decimal

def digitValue (c : Char) : Nat := c.toNat - '0'.toNat

/-- The number a run of digits stands for. -/
def ofDigits (ds : List Char) : Nat :=
  ds.foldl (fun n c => 10 * n + digitValue c) 0

def infinity : Float := 1.0 / 0.0

def notANumber : Float := 0.0 / 0.0

/-- The float nearest to `m · 10^e`, infinite beyond the largest finite float. Numbers of a
magnitude far outside the range are settled without computing the power. -/
def nearest (m : Nat) (e : Int) : Float :=
  if m = 0 then 0.0
  else
    let magnitude := (Nat.toDigits 10 m).length + e
    if 400 < magnitude then infinity
    else if magnitude < -400 then 0.0
    else if 0 ≤ e then Float.ofScientific m false e.toNat
    else Float.ofScientific m true (-e).toNat

/-- A leading sign, and whether it is a minus. -/
def splitSign : List Char → Bool × List Char
  | '-' :: cs => (true, cs)
  | '+' :: cs => (false, cs)
  | cs => (false, cs)

/-- An exponent mark with its digits, or nothing at all. -/
def exponent? : List Char → Option Int
  | [] => some 0
  | c :: cs =>
    if c = 'e' ∨ c = 'E' then
      let (negative, ds) := splitSign cs
      if ds.isEmpty ∨ ¬ ds.all Char.isDigit then none
      else some (if negative then -(ofDigits ds : Int) else ofDigits ds)
    else none

/-- An unsigned decimal: digits, a point with a digit on at least one side, an exponent. -/
def unsigned? (cs : List Char) : Option Float :=
  let whole := cs.takeWhile Char.isDigit
  let afterWhole := cs.dropWhile Char.isDigit
  let (fraction, rest) := match afterWhole with
    | '.' :: r => (r.takeWhile Char.isDigit, r.dropWhile Char.isDigit)
    | r => ([], r)
  if whole.isEmpty && fraction.isEmpty then none
  else (exponent? rest).map fun e =>
    nearest (ofDigits (whole ++ fraction)) (e - fraction.length)

/-- Texts that name a number instead of spelling its digits. -/
def named? (cs : List Char) : Option Float :=
  let word := String.ofList (cs.map Char.toLower)
  if word = "inf" ∨ word = "infinity" then some infinity
  else if word = "nan" then some notANumber
  else none

/-- A float spelled with an optional sign. -/
def float? (cs : List Char) : Option Float :=
  let (negative, rest) := splitSign cs
  ((named? rest).orElse fun _ => unsigned? rest).map fun x => if negative then -x else x

/-- The float a text stands for, blanks around it aside. -/
def ofText? (s : String) : Option Float :=
  float? (Text.trim s)

/-- A count of 64 bits: digits with an optional plus sign. -/
def count? (cs : List Char) : Option Nat :=
  let ds := match cs with
    | '+' :: r => r
    | r => r
  if ds.isEmpty ∨ ¬ ds.all Char.isDigit then none
  else
    let n := ofDigits ds
    if n < Nat.pow 2 64 then some n else none

end BlockScript.Decimal
