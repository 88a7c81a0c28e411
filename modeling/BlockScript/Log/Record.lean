import BlockScript.Error
import BlockScript.Json.Basic
import BlockScript.Time.Timestamp
/-!
The log record of one run, open until it is finished.
-/

namespace BlockScript

open Time (Timestamp)

namespace Log

/-- The stored description of a modifier that was attached. -/
structure Attachment where
  kind : String
  state : Json

end Log

/-- Who a run is attributed to when nobody claims it. -/
def anonymous : String := "anonymous"

structure LogRecord where
  scriptName : Option String
  scriptId : Option String
  result : Outcome
  started : Timestamp
  finished : Option Timestamp
  details : String
  /-- The runs started by this one, in order. -/
  children : List String
  /-- Whether every child has come to an end. -/
  groupComplete : Option Bool
  user : String
  annotations : Entries Json
  /-- The modifiers attached during the run, in order. -/
  modifiers : List Log.Attachment

namespace LogRecord

def start (name id : Option String) (user : String) (time : Timestamp) : LogRecord :=
  { scriptName := name, scriptId := id, result := .active, started := time, finished := none,
    details := "", children := [], groupComplete := none, user, annotations := [],
    modifiers := [] }

def isFinished (r : LogRecord) : Bool :=
  r.finished.isSome

/-- Closes an open record with a terminal outcome. -/
def finish (r : LogRecord) (outcome : Outcome) (details : String) (time : Timestamp) :
    Except ModifierError LogRecord :=
  if r.isFinished || !outcome.isTerminal then .error .alreadyFinished
  else .ok { r with result := outcome, details, finished := some time }

/-- Says whether the children have come to an end; a finished record stays as it is. -/
def setGroupComplete (r : LogRecord) (complete : Bool) : LogRecord :=
  if r.isFinished then r else { r with groupComplete := some complete }

def annotate (r : LogRecord) (key : String) (value : Json) : LogRecord :=
  { r with annotations := r.annotations.put key value }

def annotation? (r : LogRecord) (key : String) : Option Json :=
  Entries.value? key r.annotations

/-- Links a child, once. -/
def linkChild (r : LogRecord) (id : String) : LogRecord :=
  if id ∈ r.children then r else { r with children := r.children ++ [id] }

end LogRecord

end BlockScript
