import BlockScript.Kinds.Control
import BlockScript.Kinds.Services
import BlockScript.Kinds.Values
import BlockScript.Kinds.Variables
import BlockScript.Registry
/-!
The standard catalog of kinds.
-/

namespace BlockScript

/-- The behaviours of the standard kinds. -/
inductive Stock where
  | number
  | text
  | boolean
  | null
  | arithmetic
  | comparison
  | logic
  | negation
  | join
  | getVariable
  | setVariable
  | setGlobal
  | branches
  | repetition
  | scope
  | failure
  | siteCall
  | childScript
  | logTag
  deriving DecidableEq, Repr

namespace Stock

open Kinds

/-- The program of a standard block, among behaviours of any type. -/
def program {β : Type} : Stock → Header β → Inputs β → Program β Value
  | .number, h, _ => do
    let x ← h.fieldNumber "NUM"
    pure (.number x)
  | .text, h, _ => do
    let s ← h.fieldText "TEXT"
    pure (.string s)
  | .boolean, h, _ => .done (booleanLiteral h)
  | .null, _, _ => pure .null
  | .arithmetic, h, inputs => arithmeticBlock h inputs
  | .comparison, h, inputs => comparisonBlock h inputs
  | .logic, h, inputs => logicBlock h inputs
  | .negation, h, inputs => negationBlock h inputs
  | .join, h, inputs => joinBlock h inputs
  | .getVariable, h, _ => getBlock h
  | .setVariable, h, inputs => setBlock h inputs
  | .setGlobal, h, inputs => setGlobalBlock h inputs
  | .branches, h, inputs => ifBlock h inputs
  | .repetition, h, inputs => repeatBlock h inputs
  | .scope, _, inputs => scopeBlock inputs
  | .failure, _, inputs => failBlock inputs
  | .siteCall, h, inputs => callBlock h inputs
  | .childScript, h, inputs => childBlock h inputs
  | .logTag, h, inputs => tagBlock h inputs

instance : Behavior Stock := ⟨program⟩

/-- The kinds by name. Two names stand for repetition. -/
def kinds : List (String × Stock) :=
  [("math_number", .number), ("text", .text), ("logic_boolean", .boolean), ("logic_null", .null),
    ("math_arithmetic", .arithmetic), ("logic_compare", .comparison),
    ("logic_operation", .logic), ("logic_negate", .negation), ("text_join", .join),
    ("variables_get", .getVariable), ("variables_set", .setVariable),
    ("variables_set_global", .setGlobal), ("controls_if", .branches),
    ("controls_repeat_ext", .repetition), ("controls_repeat", .repetition),
    ("controls_scope", .scope), ("script_fail", .failure), ("site_call", .siteCall),
    ("script_child", .childScript), ("log_tag", .logTag)]

end Stock

namespace Registry

/-- The standard kinds, as behaviours of any type that has them. -/
def standardIn {β : Type} (stock : Stock → β) : Registry β :=
  Stock.kinds.foldl (fun r e => r.register e.1 (stock e.2)) .empty

def standard : Registry Stock :=
  standardIn fun s => s

end Registry

end BlockScript
