import BlockScript.Decimal.Scaling
import BlockScript.Json.Basic
/-!
The tokens of a JSON text. A number or string token keeps what the text spells; whether a number
is in range and the escapes of a string pair up is settled when a value is made of it.
-/

namespace BlockScript.Json

/-- A number as spelled: its digits before the point, those after it if there is one, and the
exponent if there is one. -/
structure NumberToken where
  negative : Bool
  whole : List Char
  fraction : Option (List Char)
  exponent : Option Int
  deriving DecidableEq, Repr

/-- A part of a string: a character, or a sixteen bit unit given by its code. -/
inductive Piece where
  | char (c : Char)
  | unit (code : Nat)
  deriving DecidableEq, Repr

abbrev StringToken := List Piece

inductive Token where
  | openArray
  | closeArray
  | openObject
  | closeObject
  | comma
  | colon
  | null
  | bool (b : Bool)
  | number (n : NumberToken)
  | string (s : StringToken)
  deriving DecidableEq, Repr

/-- Whether a number has neither a point nor an exponent mark. -/
def NumberToken.integral (t : NumberToken) : Bool :=
  t.fraction.isNone && t.exponent.isNone

/-- The value spelled by a number token, unless it is out of range. What is not an integer of 64
bits is a float by scaling, and so is a negative zero. -/
def NumberToken.number? (t : NumberToken) : Option Number :=
  let n := Decimal.ofDigits t.whole
  if t.integral && !t.negative && n < Nat.pow 2 64 then some (.nat n)
  else if t.integral && t.negative && n ≠ 0 && n ≤ Nat.pow 2 63 then some (.negative n)
  else
    (Decimal.scaled? t.whole (t.fraction.getD []) (t.exponent.getD 0)).map fun x =>
      .float (if t.negative then -x else x)

/-- The characters of a string. A high surrogate has to be followed by a low one, and a low one
does not stand alone. -/
def StringToken.chars? : StringToken → Option (List Char)
  | [] => some []
  | .char c :: rest => (chars? rest).map (c :: ·)
  | .unit high :: .unit low :: rest =>
    if high < 0xD800 ∨ 0xDFFF < high then (chars? (.unit low :: rest)).map (Char.ofNat high :: ·)
    else if high < 0xDC00 ∧ 0xDC00 ≤ low ∧ low ≤ 0xDFFF then
      (chars? rest).map (Char.ofNat (0x10000 + (high - 0xD800) * 0x400 + (low - 0xDC00)) :: ·)
    else none
  | .unit code :: rest =>
    if code < 0xD800 ∨ 0xDFFF < code then (chars? rest).map (Char.ofNat code :: ·) else none

def StringToken.text? (t : StringToken) : Option String :=
  (chars? t).map String.ofList

def hexValue? (c : Char) : Option Nat :=
  if '0' ≤ c ∧ c ≤ '9' then some (c.toNat - '0'.toNat)
  else if 'a' ≤ c ∧ c ≤ 'f' then some (c.toNat - 'a'.toNat + 10)
  else if 'A' ≤ c ∧ c ≤ 'F' then some (c.toNat - 'A'.toNat + 10)
  else none

def hexUnit? (a b c d : Char) : Option Nat := do
  let a ← hexValue? a
  let b ← hexValue? b
  let c ← hexValue? c
  let d ← hexValue? d
  pure (((a * 16 + b) * 16 + c) * 16 + d)

/-- The character a one-letter escape stands for. -/
def escaped? : Char → Option Char
  | '"' => some '"'
  | '\\' => some '\\'
  | '/' => some '/'
  | 'b' => some '\x08'
  | 'f' => some '\x0c'
  | 'n' => some '\n'
  | 'r' => some '\r'
  | 't' => some '\t'
  | _ => none

/-- The rest of a string after its opening quote, and what follows the closing one. -/
def scanString : List Char → Option (StringToken × List Char)
  | [] => none
  | '"' :: rest => some ([], rest)
  | '\\' :: 'u' :: a :: b :: c :: d :: rest =>
    match hexUnit? a b c d with
    | none => none
    | some code => (scanString rest).map fun (t, r) => (.unit code :: t, r)
  | '\\' :: e :: rest =>
    match escaped? e with
    | none => none
    | some c => (scanString rest).map fun (t, r) => (.char c :: t, r)
  | c :: rest =>
    if c = '\\' ∨ c.toNat < 0x20 then none
    else (scanString rest).map fun (t, r) => (.char c :: t, r)

/-- The digits after a point, if a point comes next. A point without digits is refused. -/
def scanFraction : List Char → Option (Option (List Char) × List Char)
  | '.' :: rest =>
    let ds := rest.takeWhile Char.isDigit
    if ds.isEmpty then none else some (some ds, rest.dropWhile Char.isDigit)
  | rest => some (none, rest)

/-- The exponent, if an exponent mark comes next. A mark without digits is refused. -/
def scanExponent : List Char → Option (Option Int × List Char)
  | [] => some (none, [])
  | c :: rest =>
    if c = 'e' ∨ c = 'E' then
      let (negative, after) := Decimal.splitSign rest
      let ds := after.takeWhile Char.isDigit
      if ds.isEmpty then none
      else
        let n : Int := Decimal.ofDigits ds
        some (some (if negative then -n else n), after.dropWhile Char.isDigit)
    else some (none, c :: rest)

/-- A number: no plus sign, no surplus leading zero, digits on both sides of a point. -/
def scanNumber (cs : List Char) : Option (NumberToken × List Char) :=
  let (negative, cs) := match cs with
    | '-' :: rest => (true, rest)
    | rest => (false, rest)
  let whole := cs.takeWhile Char.isDigit
  if whole.isEmpty ∨ (whole.head? = some '0' ∧ 1 < whole.length) then none
  else
    match scanFraction (cs.dropWhile Char.isDigit) with
    | none => none
    | some (fraction, rest) =>
      match scanExponent rest with
      | none => none
      | some (exponent, rest) => some ({ negative, whole, fraction, exponent }, rest)

/-- What follows a word, if the text starts with it. -/
def after? : (word : List Char) → List Char → Option (List Char)
  | [], cs => some cs
  | w :: ws, c :: cs => if w = c then after? ws cs else none
  | _ :: _, [] => none

/-- The token that starts a text, and the rest of the text. -/
def scanToken : List Char → Option (Token × List Char)
  | [] => none
  | '[' :: rest => some (.openArray, rest)
  | ']' :: rest => some (.closeArray, rest)
  | '\x7b' :: rest => some (.openObject, rest)
  | '\x7d' :: rest => some (.closeObject, rest)
  | ',' :: rest => some (.comma, rest)
  | ':' :: rest => some (.colon, rest)
  | '"' :: rest => (scanString rest).map fun (t, r) => (.string t, r)
  | 'n' :: rest => (after? ['u', 'l', 'l'] rest).map fun r => (.null, r)
  | 't' :: rest => (after? ['r', 'u', 'e'] rest).map fun r => (.bool true, r)
  | 'f' :: rest => (after? ['a', 'l', 's', 'e'] rest).map fun r => (.bool false, r)
  | cs => (scanNumber cs).map fun (t, r) => (.number t, r)

/-- The blanks allowed between tokens. -/
def isSpace (c : Char) : Bool :=
  c == ' ' || c == '\t' || c == '\n' || c == '\r'

/-- The tokens of a text, if it consists of tokens and blanks. Each step takes a character at
least, so the length of the text is fuel enough. -/
def scan : (fuel : Nat) → List Char → Option (List Token)
  | _, [] => some []
  | 0, _ :: _ => none
  | fuel + 1, c :: cs =>
    if isSpace c then scan fuel cs
    else
      match scanToken (c :: cs) with
      | none => none
      | some (t, rest) => (scan fuel rest).map (t :: ·)

def tokens? (text : List Char) : Option (List Token) :=
  scan text.length text

end BlockScript.Json
