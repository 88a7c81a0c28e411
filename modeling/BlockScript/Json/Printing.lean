import BlockScript.Decimal.Layout
import BlockScript.Json.Basic
/-!
JSON text: compact, or with one item a line.
-/

namespace BlockScript.Json

def isNegative (x : Float) : Bool :=
  Nat.pow 2 63 ≤ x.toBits.toNat

/-- Floats have the fewest digits that read back, of two nearest ones the even. They are written
positionally, always with a fraction, from 10^-5 up to below 10^16, and with an exponent
elsewhere. What is not finite is written as null. -/
def floatChars (x : Float) : List Char :=
  if !x.isFinite then ['n', 'u', 'l', 'l']
  else
    let d := Decimal.shortest .even x
    let e := d.leadingExponent
    let digits := if -5 ≤ e ∧ e ≤ 15 then d.positionalPoint else d.scientific
    if isNegative x then '-' :: digits else digits

def Number.chars : Number → List Char
  | .nat n => Nat.toDigits 10 n
  | .negative n => '-' :: Nat.toDigits 10 n
  | .float x => floatChars x

def hexDigit (n : Nat) : Char := Nat.digitChar (n % 16)

/-- Quotes, backslashes and control characters are escaped, all else stands for itself. -/
def escapeChar (c : Char) : List Char :=
  if c = '"' then ['\\', '"']
  else if c = '\\' then ['\\', '\\']
  else if c = '\x08' then ['\\', 'b']
  else if c = '\t' then ['\\', 't']
  else if c = '\n' then ['\\', 'n']
  else if c = '\x0c' then ['\\', 'f']
  else if c = '\r' then ['\\', 'r']
  else if c.toNat < 0x20 then
    ['\\', 'u', '0', '0', hexDigit (c.toNat / 16), hexDigit c.toNat]
  else [c]

def quoted (s : String) : List Char :=
  '"' :: s.toList.flatMap escapeChar ++ ['"']

/-- The text without any blanks. -/
def chars : Json → List Char
  | .null => ['n', 'u', 'l', 'l']
  | .bool true => ['t', 'r', 'u', 'e']
  | .bool false => ['f', 'a', 'l', 's', 'e']
  | .number n => n.chars
  | .string s => quoted s
  | .array [] => ['[', ']']
  | .array (j :: js) => '[' :: j.chars ++ charsItems js
  | .object [] => ['\x7b', '\x7d']
  | .object ((n, j) :: es) => '\x7b' :: quoted n ++ ':' :: j.chars ++ charsEntries es
where
  charsItems : List Json → List Char
    | [] => [']']
    | j :: js => ',' :: j.chars ++ charsItems js
  charsEntries : List (String × Json) → List Char
    | [] => ['\x7d']
    | (n, j) :: es => ',' :: quoted n ++ ':' :: j.chars ++ charsEntries es

def compact (j : Json) : String :=
  String.ofList j.chars

def newline (level : Nat) : List Char :=
  '\n' :: List.replicate (2 * level) ' '

/-- The text with one item or member a line, two spaces a level. -/
def prettyChars (level : Nat) : Json → List Char
  | .array [] => ['[', ']']
  | .array (j :: js) =>
    '[' :: newline (level + 1) ++ j.prettyChars (level + 1) ++ prettyItems level js
  | .object [] => ['\x7b', '\x7d']
  | .object ((n, j) :: es) =>
    '\x7b' :: newline (level + 1) ++ quoted n ++ ':' :: ' ' :: j.prettyChars (level + 1) ++
      prettyEntries level es
  | j => j.chars
where
  prettyItems (level : Nat) : List Json → List Char
    | [] => newline level ++ [']']
    | j :: js => ',' :: newline (level + 1) ++ j.prettyChars (level + 1) ++ prettyItems level js
  prettyEntries (level : Nat) : List (String × Json) → List Char
    | [] => newline level ++ ['\x7d']
    | (n, j) :: es =>
      ',' :: newline (level + 1) ++ quoted n ++ ':' :: ' ' :: j.prettyChars (level + 1) ++
        prettyEntries level es

def pretty (j : Json) : String :=
  String.ofList (j.prettyChars 0)

/-- What JSON of type `ω` is made of, one method for each kind of datum written to it. -/
structure Writer (ω : Type) where
  null : ω
  bool : Bool → ω
  float : Float → ω
  string : String → ω
  array : List ω → ω

namespace Writer

/-- Writes trees, in which a float that is not finite is null. -/
def tree : Writer Json where
  null := .null
  bool := .bool
  float x := if x.isFinite then .number (.float x) else .null
  string := .string
  array := .array

/-- Writes compact text. -/
def text : Writer (List Char) where
  null := ['n', 'u', 'l', 'l']
  bool b := if b then ['t', 'r', 'u', 'e'] else ['f', 'a', 'l', 's', 'e']
  float := floatChars
  string := quoted
  array items := '[' :: [','].intercalate items ++ [']']

end Writer

end BlockScript.Json
