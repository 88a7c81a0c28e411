import BlockScript.Json.Node
import BlockScript.Json.Printing
/-!
Settings of a run that can be kept as JSON.
-/

namespace BlockScript

structure Config where
  scriptName : Option String := none
  scriptId : Option String := none
  /-- The limit on the time a run takes, in milliseconds. -/
  timeout : Option Nat := none
  deriving DecidableEq, Repr

namespace Config

open Json in
def read? {α : Type} [Node α] (x : α) : Option Config := do
  match ← Node.fields? ["scriptName", "scriptId", "timeoutMs"] x with
  | [name, id, timeout] =>
    pure { scriptName := ← Node.optional Node.string? name
           scriptId := ← Node.optional Node.string? id
           timeout := ← Node.optional Node.nat? timeout }
  | _ => none

def ofText? (text : String) : Option Config :=
  (Json.source? text).bind read?

/-- The settings in the order they are declared. -/
def toJson (c : Config) : Json :=
  let text (s : Option String) : Json := s.elim .null .string
  .object [("scriptName", text c.scriptName), ("scriptId", text c.scriptId),
    ("timeoutMs", c.timeout.elim .null fun n => .number (.nat n))]

end Config

end BlockScript
