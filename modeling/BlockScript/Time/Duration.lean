/-!
The text of a duration.
-/

namespace BlockScript.Time

/-- A decimal fraction of three places without its trailing zeros, the point included. -/
def thousandths (n : Nat) : String :=
  let pad (width n : Nat) : String :=
    let ds := Nat.toDigits 10 n
    String.ofList (List.replicate (width - ds.length) '0' ++ ds)
  if n = 0 then ""
  else if n % 100 = 0 then "." ++ pad 1 (n / 100)
  else if n % 10 = 0 then "." ++ pad 2 (n / 10)
  else "." ++ pad 3 n

/-- A duration in its largest unit that is at least one: seconds, with a fraction if needed, or
milliseconds. Nothing at all is zero nanoseconds. -/
def durationText (milliseconds : Nat) : String :=
  if milliseconds = 0 then "0ns"
  else if milliseconds < 1000 then s!"{milliseconds}ms"
  else
    let seconds := milliseconds / 1000
    let fraction := thousandths (milliseconds % 1000)
    s!"{seconds}{fraction}s"

end BlockScript.Time
