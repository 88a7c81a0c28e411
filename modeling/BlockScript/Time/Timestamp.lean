import BlockScript.Decimal.Reading
/-!
Moments in coordinated universal time and their RFC 3339 text.

The reader is lenient: it takes a space or a small `t` between date and time, blanks around the
numbers, and numbers with fewer digits than usual. It insists on an offset, and on a date and time
that exist.
-/

namespace BlockScript.Time

/-- Seconds from the start of 1970 and nanoseconds. In a leap second, which counts as part of the
second before it, there are a billion nanoseconds or more. -/
structure Timestamp where
  seconds : Int
  nanos : Nat
  deriving DecidableEq, Repr

structure Date where
  year : Int
  month : Nat
  day : Nat
  deriving DecidableEq, Repr

namespace Date

def isLeapYear (year : Int) : Bool :=
  year % 4 = 0 && (year % 100 ≠ 0 || year % 400 = 0)

def daysInMonth (year : Int) (month : Nat) : Nat :=
  match month with
  | 2 => if isLeapYear year then 29 else 28
  | 4 | 6 | 9 | 11 => 30
  | _ => 31

def firstYear : Int := -262143

def lastYear : Int := 262142

def isValid (d : Date) : Bool :=
  firstYear ≤ d.year && d.year ≤ lastYear && 1 ≤ d.month && d.month ≤ 12 && 1 ≤ d.day &&
    d.day ≤ daysInMonth d.year d.month

/-- Days from the start of 1970. Years are counted from March, so that a leap day comes last. -/
def toDays (d : Date) : Int :=
  let y := if d.month ≤ 2 then d.year - 1 else d.year
  let m : Int := if d.month ≤ 2 then d.month + 9 else d.month - 3
  let era := y / 400
  let yearOfEra := y - era * 400
  let dayOfYear := (153 * m + 2) / 5 + d.day - 1
  let dayOfEra := yearOfEra * 365 + yearOfEra / 4 - yearOfEra / 100 + dayOfYear
  era * 146097 + dayOfEra - 719468

def ofDays (days : Int) : Date :=
  let z := days + 719468
  let era := z / 146097
  let dayOfEra := z - era * 146097
  let yearOfEra := (dayOfEra - dayOfEra / 1460 + dayOfEra / 36524 - dayOfEra / 146096) / 365
  let dayOfYear := dayOfEra - (365 * yearOfEra + yearOfEra / 4 - yearOfEra / 100)
  let m := (5 * dayOfYear + 2) / 153
  let day := dayOfYear - (153 * m + 2) / 5 + 1
  let month := if m < 10 then m + 3 else m - 9
  let year := yearOfEra + era * 400 + if month ≤ 2 then 1 else 0
  { year, month := month.toNat, day := day.toNat }

end Date

namespace Timestamp

/-- The day a moment falls on. -/
def date (t : Timestamp) : Date :=
  Date.ofDays (t.seconds / 86400)

/-- Whole milliseconds from the start of 1970, rounded down. -/
def toMilliseconds (t : Timestamp) : Int :=
  t.seconds * 1000 + (t.nanos / 1000000 : Nat)

def addMilliseconds (t : Timestamp) (ms : Nat) : Timestamp :=
  let nanos := t.nanos + ms % 1000 * 1000000
  { seconds := t.seconds + (ms / 1000 : Nat) + (nanos / 1000000000 : Nat),
    nanos := nanos % 1000000000 }

def padded (width n : Nat) : List Char :=
  let ds := Nat.toDigits 10 n
  List.replicate (width - ds.length) '0' ++ ds

/-- Four digits, or a sign and at least four digits outside of the years 0 to 9999. -/
def yearChars (year : Int) : List Char :=
  if 0 ≤ year ∧ year ≤ 9999 then padded 4 year.toNat
  else (if year < 0 then '-' else '+') :: padded 4 year.natAbs

/-- The fewest of three, six or nine digits that are exact, or nothing. -/
def fractionChars (nanos : Nat) : List Char :=
  if nanos = 0 then []
  else if nanos % 1000000 = 0 then '.' :: padded 3 (nanos / 1000000)
  else if nanos % 1000 = 0 then '.' :: padded 6 (nanos / 1000)
  else '.' :: padded 9 nanos

def text (t : Timestamp) : String :=
  let date := t.date
  let second := (t.seconds % 86400).toNat
  let leap := 1000000000 ≤ t.nanos
  String.ofList (yearChars date.year ++ '-' :: padded 2 date.month ++ '-' :: padded 2 date.day ++
    'T' :: padded 2 (second / 3600) ++ ':' :: padded 2 (second / 60 % 60) ++
    ':' :: padded 2 (second % 60 + if leap then 1 else 0) ++
    fractionChars (t.nanos % 1000000000) ++ ['Z'])

/-! Reading. Each reader takes its part off the front of the text. -/

/-- A number of one up to `width` digits, blanks before it aside. -/
def readNumber (width : Nat) (cs : List Char) : Option (Nat × List Char) :=
  let cs := cs.dropWhile Text.isBlank
  let ds := (cs.take width).takeWhile Char.isDigit
  if ds.isEmpty then none else some (Decimal.ofDigits ds, cs.drop ds.length)

/-- A year of up to four digits, or with a sign and any number of digits. -/
def readYear (cs : List Char) : Option (Int × List Char) :=
  match cs.dropWhile Text.isBlank with
  | '-' :: rest => signed rest fun n => -n
  | '+' :: rest => signed rest fun n => n
  | rest => (readNumber 4 rest).map fun (n, r) => ((n : Int), r)
where
  signed (cs : List Char) (sign : Int → Int) : Option (Int × List Char) :=
    let ds := cs.takeWhile Char.isDigit
    if ds.isEmpty then none
    else some (sign (Decimal.ofDigits ds), cs.dropWhile Char.isDigit)

/-- A mark, blanks before it aside. -/
def readMark (mark : Char) (cs : List Char) : Option (List Char) :=
  match cs.dropWhile Text.isBlank with
  | c :: rest => if c = mark then some rest else none
  | [] => none

/-- Nanoseconds after a point, if there is one. Digits after the ninth do not count. -/
def readFraction : List Char → Option (Nat × List Char)
  | '.' :: rest =>
    let ds := rest.takeWhile Char.isDigit
    let nine := ds.take 9
    if ds.isEmpty then none
    else some (Decimal.ofDigits nine * Nat.pow 10 (9 - nine.length), rest.dropWhile Char.isDigit)
  | rest => some (0, rest)

/-- Minutes of an offset, after its hours and any colons or blanks. -/
def readOffsetMinutes (cs : List Char) : Option (Nat × List Char) :=
  match cs.dropWhile fun c => c = ':' || Text.isBlank c with
  | a :: b :: rest =>
    if a.isDigit && b.isDigit && a < '6' then some (Decimal.ofDigits [a, b], rest) else none
  | _ => none

/-- The offset from universal time in seconds. -/
def readOffset (cs : List Char) : Option (Int × List Char) :=
  match cs with
  | 'Z' :: rest | 'z' :: rest => some (0, rest)
  | u :: t :: c :: rest =>
    if (u = 'U' ∨ u = 'u') ∧ (t = 'T' ∨ t = 't') ∧ (c = 'C' ∨ c = 'c') then some (0, rest)
    else if u = '+' then numeric (t :: c :: rest) fun n => n
    else if u = '-' ∨ u = '−' then numeric (t :: c :: rest) fun n => -n
    else none
  | _ => none
where
  numeric (cs : List Char) (sign : Int → Int) : Option (Int × List Char) :=
    match cs with
    | a :: b :: rest =>
      if a.isDigit && b.isDigit then
        (readOffsetMinutes rest).map fun (minutes, r) =>
          (sign (Decimal.ofDigits [a, b] * 3600 + minutes * 60), r)
      else none
    | _ => none

/-- The separator of date and time. -/
def readSeparator : List Char → Option (List Char)
  | 'T' :: rest | 't' :: rest | ' ' :: rest => some rest
  | _ => none

/-- The moment a text stands for. The date has to exist as written and in universal time. -/
def ofChars? (cs : List Char) : Option Timestamp := do
  let (year, cs) ← readYear cs
  let cs ← readMark '-' cs
  let (month, cs) ← readNumber 2 cs
  let cs ← readMark '-' cs
  let (day, cs) ← readNumber 2 cs
  let cs ← readSeparator cs
  let (hour, cs) ← readNumber 2 cs
  let cs ← readMark ':' cs
  let (minute, cs) ← readNumber 2 cs
  let cs ← readMark ':' cs
  let (second, cs) ← readNumber 2 cs
  let (nanos, cs) ← readFraction cs
  let (offset, cs) ← readOffset (cs.dropWhile Text.isBlank)
  let date : Date := { year, month, day }
  if date.isValid && hour < 24 && minute < 60 && second ≤ 60 && offset.natAbs < 86400 &&
      cs.all Text.isBlank then
    let leap := second = 60
    let seconds := date.toDays * 86400 + (hour * 3600 + minute * 60 : Nat) - offset
    let moment : Timestamp :=
      { seconds := seconds + (if leap then 59 else second : Nat)
        nanos := if leap then nanos + 1000000000 else nanos }
    if moment.date.isValid then some moment else none
  else none

def ofText? (s : String) : Option Timestamp :=
  ofChars? s.toList

end Timestamp

end BlockScript.Time
