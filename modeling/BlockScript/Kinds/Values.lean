import BlockScript.Program
/-!
Kinds that compute values: literals, arithmetic, comparison, logic and text.
-/

namespace BlockScript.Kinds

variable {β : Type}

def booleanLiteral (h : Header β) : Except ScriptError Value := do
  let invalid := h.invalidField "BOOL" "expected TRUE or FALSE"
  match ← h.field "BOOL" with
  | .bool b => .ok (.bool b)
  | .string s =>
    let word := String.ofList (s.toList.map Char.toLower)
    if word = "true" then .ok (.bool true)
    else if word = "false" then .ok (.bool false)
    else .error invalid
  | _ => .error invalid

def arithmetic (h : Header β) (op : String) (a b : Float) : Except ScriptError Float :=
  match op with
  | "ADD" => .ok (a + b)
  | "MINUS" => .ok (a - b)
  | "MULTIPLY" => .ok (a * b)
  | "DIVIDE" => if b == 0.0 then .error (.runtime "Division by zero") else .ok (a / b)
  | "POWER" => .ok (a.pow b)
  | _ => .error (h.invalidField "OP" "unknown arithmetic operator")

/-- Equality as scripts see it: two numbers compare as numbers, all else by value or by text. -/
def equalValues (a b : Value) : Bool :=
  match a, b with
  | .number x, .number y => x == y
  | _, _ => a == b || a.text == b.text

def comparison (h : Header β) (op : String) (a b : Value) : Except ScriptError Bool :=
  match op with
  | "EQ" => .ok (equalValues a b)
  | "NEQ" => .ok (!equalValues a b)
  | "LT" => ordered fun x y => x < y
  | "LTE" => ordered fun x y => x ≤ y
  | "GT" => ordered fun x y => x > y
  | "GTE" => ordered fun x y => x ≥ y
  | _ => .error (h.invalidField "OP" "unknown comparison operator")
where
  ordered (holds : Float → Float → Bool) : Except ScriptError Bool := do
    let x ← a.toNumber
    let y ← b.toNumber
    .ok (holds x y)

def arithmeticBlock (h : Header β) (inputs : Inputs β) : Program β Value := do
  let op ← h.fieldText "OP"
  let a ← inputs.required h "A"
  let x ← a.toNumber
  let b ← inputs.required h "B"
  let y ← b.toNumber
  let z ← arithmetic h op x y
  pure (.number z)

def comparisonBlock (h : Header β) (inputs : Inputs β) : Program β Value := do
  let op ← h.fieldText "OP"
  let a ← inputs.required h "A"
  let b ← inputs.required h "B"
  let holds ← comparison h op a b
  pure (.bool holds)

/-- The second operand is evaluated only when the first leaves the result open. -/
def logicBlock (h : Header β) (inputs : Inputs β) : Program β Value := do
  let op ← h.fieldText "OP"
  let a ← inputs.required h "A"
  match op with
  | "AND" => if a.truthy then second else pure (.bool false)
  | "OR" => if a.truthy then pure (.bool true) else second
  | _ => .fail (h.invalidField "OP" "unknown logic operator")
where
  second : Program β Value := do
    let b ← inputs.required h "B"
    pure (.bool b.truthy)

def negationBlock (h : Header β) (inputs : Inputs β) : Program β Value := do
  let v ← inputs.required h "BOOL"
  pure (.bool !v.truthy)

/-- The text of the items from `index` on; an item that is not connected has none. -/
def joinItems (inputs : Inputs β) : (count index : Nat) → Program β String
  | 0, _ => pure ""
  | count + 1, index => do
    let item ← inputs.optional s!"ADD{index}"
    let rest ← joinItems inputs count (index + 1)
    pure (item.elim "" Value.text ++ rest)

def joinBlock (h : Header β) (inputs : Inputs β) : Program β Value := do
  let text ← joinItems inputs (h.count "itemCount") 0
  pure (.string text)

end BlockScript.Kinds
