import BlockScript.Json.Node
import BlockScript.Json.Printing
import BlockScript.Log.Record
/-!
Log records as JSON. What is absent, and annotations and modifiers when there are none, is left
out.
-/

namespace BlockScript

open Json Time

namespace Log.Attachment

def toJson (a : Attachment) : Json :=
  .object [("kind", .string a.kind), ("state", a.state)]

def read? {α : Type} [Node α] (x : α) : Option Attachment := do
  match ← Node.fields? ["kind", "state"] x with
  | [kind, state] =>
    pure { kind := ← Node.required Node.string? kind, state := ← Node.required Node.json? state }
  | _ => none

def same (a b : Attachment) : Bool :=
  a.kind == b.kind && a.state == b.state

instance : BEq Attachment := ⟨same⟩

/-- The attachments listed in a text. -/
def listOfText? (text : String) : Option (List Attachment) :=
  (Json.source? text).bind (Node.listOf read?)

end Log.Attachment

namespace LogRecord

/-- The members of a record, in the order of its fields. -/
def members (r : LogRecord) : List (String × Json) :=
  let when? (name : String) (j : Option Json) : List (String × Json) :=
    j.elim [] fun j => [(name, j)]
  when? "scriptName" (r.scriptName.map .string) ++
  when? "scriptId" (r.scriptId.map .string) ++
  [("result", .string r.result.name), ("started", .string r.started.text)] ++
  when? "finished" (r.finished.map fun t => .string t.text) ++
  [("details", .string r.details), ("children", .array (r.children.map .string))] ++
  when? "groupComplete" (r.groupComplete.map .bool) ++
  [("user", .string r.user)] ++
  (if r.annotations.isEmpty then [] else [("annotations", .object r.annotations)]) ++
  (if r.modifiers.isEmpty then [] else [("modifiers", .array (r.modifiers.map (·.toJson)))])

def toJson (r : LogRecord) : Json :=
  .object (Entries.ofList r.members)

/-- The text of a record with its members in the order of its fields. -/
def pretty (r : LogRecord) : String :=
  (Json.object r.members).pretty

def readOutcome? {α : Type} [Node α] (x : α) : Option Outcome :=
  (Node.constant? x).bind Outcome.ofName?

def readTimestamp? {α : Type} [Node α] (x : α) : Option Timestamp :=
  (Node.string? x).bind Timestamp.ofText?

def read? {α : Type} [Node α] (x : α) : Option LogRecord := do
  match ← Node.fields? ["scriptName", "scriptId", "result", "started", "finished", "details",
      "children", "groupComplete", "user", "annotations", "modifiers"] x with
  | [name, id, result, started, finished, details, children, group, user, annotations,
      modifiers] =>
    pure {
      scriptName := ← Node.optional Node.string? name
      scriptId := ← Node.optional Node.string? id
      result := ← Node.required readOutcome? result
      started := ← Node.required readTimestamp? started
      finished := ← Node.optional readTimestamp? finished
      details := ← Node.required Node.string? details
      children := ← Node.defaulted [] (Node.listOf Node.string?) children
      groupComplete := ← Node.optional Node.bool? group
      user := ← Node.defaulted anonymous Node.string? user
      annotations := ← Node.defaulted [] (Node.entriesOf Node.json?) annotations
      modifiers := ← Node.defaulted [] (Node.listOf Log.Attachment.read?) modifiers }
  | _ => none

def ofText? (text : String) : Option LogRecord :=
  (Json.source? text).bind read?

def same (a b : LogRecord) : Bool :=
  a.scriptName == b.scriptName && a.scriptId == b.scriptId && a.result == b.result &&
    a.started == b.started && a.finished == b.finished && a.details == b.details &&
    a.children == b.children && a.groupComplete == b.groupComplete && a.user == b.user &&
    Json.object a.annotations == Json.object b.annotations && a.modifiers == b.modifiers

instance : BEq LogRecord := ⟨same⟩

end LogRecord

end BlockScript
