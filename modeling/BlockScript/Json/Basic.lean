import BlockScript.Decimal.Reading
import BlockScript.Entries
/-!
JSON trees. Objects are entries in order of name, and numbers keep apart the integers of 64 bits
and the floats.
-/

namespace BlockScript

namespace Json

inductive Number where
  /-- An integer from 0 up to the largest of 64 bits. -/
  | nat (n : Nat)
  /-- The integer `-n`, for a positive `n` of up to 2^63. -/
  | negative (n : Nat)
  | float (x : Float)

end Json

inductive Json where
  | null
  | bool (b : Bool)
  | number (n : Json.Number)
  | string (s : String)
  | array (items : List Json)
  | object (entries : List (String × Json))

namespace Json

instance : Inhabited Json := ⟨.null⟩

def Number.toFloat : Number → Float
  | .nat n => Float.ofNat n
  | .negative n => -Float.ofNat n
  | .float x => x

/-- Equality, by which integers and floats differ and the two zeros among the floats agree. -/
def Number.same : Number → Number → Bool
  | .nat a, .nat b => a == b
  | .negative a, .negative b => a == b
  | .float a, .float b => a == b
  | _, _ => false

/-- Equality of trees, by `Number.same` at the numbers. -/
def same : Json → Json → Bool
  | .null, .null => true
  | .bool a, .bool b => a == b
  | .number a, .number b => a.same b
  | .string a, .string b => a == b
  | .array as, .array bs => sameItems as bs
  | .object as, .object bs => sameEntries as bs
  | _, _ => false
where
  sameItems : List Json → List Json → Bool
    | [], [] => true
    | a :: as, b :: bs => a.same b && sameItems as bs
    | _, _ => false
  sameEntries : List (String × Json) → List (String × Json) → Bool
    | [], [] => true
    | (m, a) :: as, (n, b) :: bs => m == n && a.same b && sameEntries as bs
    | _, _ => false

instance : BEq Json := ⟨same⟩

def isNull : Json → Bool
  | .null => true
  | _ => false

def asString? : Json → Option String
  | .string s => some s
  | _ => none

/-- A non-negative integer; floats have none, whole or not. -/
def asNat? : Json → Option Nat
  | .number (.nat n) => some n
  | _ => none

/-- The value under a name, when this is an object. -/
def member? (name : String) : Json → Option Json
  | .object es => Entries.value? name es
  | _ => none

/-- How many arrays and objects are open at once where most are. -/
def depth : Json → Nat
  | .array items => depthItems items + 1
  | .object es => depthEntries es + 1
  | _ => 0
where
  depthItems : List Json → Nat
    | [] => 0
    | j :: js => max j.depth (depthItems js)
  depthEntries : List (String × Json) → Nat
    | [] => 0
    | (_, j) :: es => max j.depth (depthEntries es)

end Json

end BlockScript
