import BlockScript.Error
import BlockScript.Json.Printing
/-!
The values scripts compute with, their readings as text, number and truth value, and their JSON.
-/

namespace BlockScript

inductive Value where
  | null
  | bool (b : Bool)
  | number (x : Float)
  | string (s : String)
  | list (items : List Value)

namespace Value

instance : Inhabited Value := ⟨.null⟩

/-- Equality of values; numbers compare as floats do. -/
def same : Value → Value → Bool
  | .null, .null => true
  | .bool a, .bool b => a == b
  | .number a, .number b => a == b
  | .string a, .string b => a == b
  | .list as, .list bs => sameItems as bs
  | _, _ => false
where
  sameItems : List Value → List Value → Bool
    | [], [] => true
    | a :: as, b :: bs => a.same b && sameItems as bs
    | _, _ => false

instance : BEq Value := ⟨same⟩

def isNull : Value → Bool
  | .null => true
  | _ => false

def typeName : Value → String
  | .null => "null"
  | .bool _ => "bool"
  | .number _ => "number"
  | .string _ => "string"
  | .list _ => "list"

/-- Below this magnitude every whole number is written as an integer. -/
def integerLimit : Nat := 9007199254740992

/-- The digits a finite number is written with, its sign left out. Whole numbers of moderate size
are integers. Any other has the fewest digits that read back, the upper of two nearest ones. -/
def decimal (x : Float) : Decimal :=
  match (Binary.ofFloat x).whole? with
  | some n => if n < integerLimit then { digits := n, exponent := 0 } else Decimal.shortest .up x
  | none => Decimal.shortest .up x

/-- The text of a number, never with an exponent and without a sign on zero. -/
def numberText (x : Float) : String :=
  if x.isNaN then "NaN"
  else
    let magnitude := if x.isInf then "inf" else String.ofList (decimal x).positional
    if x < 0.0 then "-" ++ magnitude else magnitude

/-- The text of a value: null has none, and the items of a list are divided by commas. -/
def text : Value → String
  | .null => ""
  | .bool b => if b then "true" else "false"
  | .number x => numberText x
  | .string s => s
  | .list items => String.intercalate "," (texts items)
where
  texts : List Value → List String
    | [] => []
    | v :: vs => v.text :: texts vs

/-- The number a value stands for: null is zero, and text is read as a decimal. -/
def toNumber : Value → Except ScriptError Float
  | .null => .ok 0.0
  | .bool b => .ok (if b then 1.0 else 0.0)
  | .number x => .ok x
  | .string s =>
    match Decimal.ofText? s with
    | some x => .ok x
    | none => .error (.typeMismatch "number" s!"string '{s}'")
  | .list _ => .error (.typeMismatch "number" "list")

/-- What counts as true in a condition. -/
def truthy : Value → Bool
  | .null => false
  | .bool b => b
  | .number x => x != 0.0
  | .string s => s != "" && s != "0" && s != "false"
  | .list items => !items.isEmpty

/-- The value of a JSON tree. An object becomes the text of its JSON. -/
def ofJson : Json → Value
  | .null => .null
  | .bool b => .bool b
  | .number n => .number n.toFloat
  | .string s => .string s
  | .array items => .list (ofItems items)
  | .object es => .string (Json.object es).compact
where
  ofItems : List Json → List Value
    | [] => []
    | j :: js => ofJson j :: ofItems js

/-- The value of a JSON tree without objects. -/
def ofPlainJson? : Json → Option Value
  | .null => some .null
  | .bool b => some (.bool b)
  | .number n => some (.number n.toFloat)
  | .string s => some (.string s)
  | .array items => (ofPlainItems items).map .list
  | .object _ => none
where
  ofPlainItems : List Json → Option (List Value)
    | [] => some []
    | j :: js =>
      match ofPlainJson? j, ofPlainItems js with
      | some v, some vs => some (v :: vs)
      | _, _ => none

/-- The JSON of a value. Numbers become floats, and those that are not finite null. -/
def toJson : Value → Json
  | .null => .null
  | .bool b => .bool b
  | .number x => if x.isFinite then .number (.float x) else .null
  | .string s => .string s
  | .list items => .array (toItems items)
where
  toItems : List Value → List Json
    | [] => []
    | v :: vs => v.toJson :: toItems vs

/-- Writes a value to a writer of JSON, without making a tree of it first. -/
def write {ω : Type} (writer : Json.Writer ω) : Value → ω
  | .null => writer.null
  | .bool b => writer.bool b
  | .number x => writer.float x
  | .string s => writer.string s
  | .list items => writer.array (writeItems writer items)
where
  writeItems {ω : Type} (writer : Json.Writer ω) : List Value → List ω
    | [] => []
    | v :: vs => v.write writer :: writeItems writer vs

/-- The text of a value in JSON. -/
def serialize (v : Value) : String :=
  String.ofList (v.write .text)

end Value

abbrev Bindings := Entries Value

end BlockScript
