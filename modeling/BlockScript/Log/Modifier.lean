import BlockScript.Json.Node
import BlockScript.Log.Record
/-!
Log modifiers: decorations of a log record, attached while a script runs and replayed later from
what the record says about them.
-/

namespace BlockScript

namespace Log

/-- A decoration. It is applied with `initial` set when it is attached, and without when it is
replayed. What it did to the record before it failed stays done. -/
structure Modifier where
  kind : String
  state : Json
  apply : (initial : Bool) → LogRecord → Except ModifierError Unit × LogRecord
  /-- Set when the state cannot be written down; such a modifier is not attached. -/
  unwritable : Bool := false

namespace Modifier

/-- Writes an annotation. -/
def tag (key : String) (value : Json) : Modifier where
  kind := "tag"
  state := .object [("key", .string key), ("value", value)]
  apply _ r := (.ok (), r.annotate key value)

/-- Links a child run. -/
def childScript (id : String) : Modifier where
  kind := "child-script"
  state := .object [("child_id", .string id)]
  apply _ r := (.ok (), r.linkChild id)

open Json in
def readTag (state : Json) : Option Modifier := do
  match ← Node.fields? ["key", "value"] state with
  | [key, value] =>
    pure (tag (← Node.required Node.string? key) (← Node.required Node.json? value))
  | _ => none

open Json in
def readChildScript (state : Json) : Option Modifier := do
  match ← Node.fields? ["child_id"] state with
  | [id] => pure (childScript (← Node.required Node.string? id))
  | _ => none

end Modifier

/-- Attaches a modifier to an open record: applies it, and notes it for replay if that went
well. Its state is written down first. -/
def attach (m : Modifier) (r : LogRecord) : Except ModifierError Unit × LogRecord :=
  if r.isFinished then (.error .alreadyFinished, r)
  else if m.unwritable then (.error (.invalidState m.kind), r)
  else
    match m.apply true r with
    | (.ok (), r) => (.ok (), { r with modifiers := r.modifiers ++ [⟨m.kind, m.state⟩] })
    | (.error e, r) => (.error e, r)

/-- How to make modifiers of their stored states, by kind. -/
abbrev Catalog := Entries (Json → Option Modifier)

namespace Catalog

def standard : Catalog :=
  Entries.ofList [("tag", Modifier.readTag), ("child-script", Modifier.readChildScript)]

/-- Applies one stored modifier again. -/
def replayOne (c : Catalog) (a : Attachment) (r : LogRecord) :
    Except ModifierError Unit × LogRecord :=
  match Entries.value? a.kind c with
  | none => (.error (.unknownKind a.kind), r)
  | some read =>
    match read a.state with
    | none => (.error (.invalidState a.kind), r)
    | some m => m.apply false r

/-- Applies stored modifiers again in order, up to the first that cannot be. -/
def replay (c : Catalog) : List Attachment → LogRecord → Except ModifierError Unit × LogRecord
  | [], r => (.ok (), r)
  | a :: as, r =>
    match replayOne c a r with
    | (.ok (), r) => replay c as r
    | (.error e, r) => (.error e, r)

/-- Applies a record's own modifiers to it again. -/
def replayStored (c : Catalog) (r : LogRecord) : Except ModifierError Unit × LogRecord :=
  replay c r.modifiers r

end Catalog

end Log

end BlockScript
