import BlockScript.Config
import BlockScript.Document
import BlockScript.Execution
/-!
Scripts and their runs.
-/

namespace BlockScript

/-- Who a run is attributed to, from the claim of the current user. -/
def attribution (claim : Option String) : String :=
  match claim with
  | some id => if id = "" then anonymous else id
  | none => anonymous

/-- How a script is run. -/
structure Settings where
  name : Option String := none
  id : Option String := none
  /-- The limit on the time a run takes, in milliseconds. -/
  timeout : Option Nat := none
  /-- The claim of the current user. -/
  user : Option String := none
  deriving DecidableEq, Repr

namespace Settings

/-- Takes over what a configuration says. -/
def configure (s : Settings) (c : Config) : Settings :=
  { s with
    name := c.scriptName.orElse fun _ => s.name
    id := c.scriptId.orElse fun _ => s.id
    timeout := c.timeout.orElse fun _ => s.timeout }

end Settings

structure Script (β : Type) where
  root : Block β
  settings : Settings

/-- What a finished run leaves behind. -/
structure Run where
  result : Except ScriptError Value
  log : LogRecord
  /-- The bindings of the root scope at the end. -/
  globals : Bindings

namespace Run

def value (r : Run) : Option Value :=
  match r.result with
  | .ok v => some v
  | .error _ => none

def error (r : Run) : Option ScriptError :=
  match r.result with
  | .ok _ => none
  | .error e => some e

def outcome (r : Run) : Outcome :=
  r.log.result

end Run

/-- The outcome and the details under which a result is logged. -/
def verdict : Except ScriptError Value → Outcome × String
  | .ok v => (.success, v.text)
  | .error .aborted => (.aborted, "aborted")
  | .error e => (e.outcome, e.message)

namespace Script

variable {β ε : Type}

section Start

variable (script : Script β)

/-- The state in which a run starts. -/
def initial (env : Environment β ε) (w : World ε) : RunState :=
  { scopes := Scopes.ofBindings env.site.presets
    log := LogRecord.start script.settings.name script.settings.id
      (attribution script.settings.user) w.moment
    settled := true }

/-- The state in which an evaluation over some bindings starts. -/
def initialOver (presets : Bindings) (w : World ε) : RunState :=
  { scopes := Scopes.ofBindings presets
    log := LogRecord.start script.settings.name script.settings.id (attribution none) w.moment
    settled := true }

/-- The world in which the root chain is evaluated. -/
def limited (w : World ε) : World ε :=
  { w with deadline := script.settings.timeout.map (w.now + ·) }

end Start

variable [Behavior β]

def parse (registry : Registry β) (settings : Settings) (text : String) :
    Except ParseError (Script β) := do
  let root ← Document.parse registry text
  .ok { root, settings }

/-- Evaluates the root chain within the time limit. An evaluation cut off there leaves its scopes
open, so they are dropped. -/
def evaluateRoot (script : Script β) (env : Environment β ε) (s : RunState) (w : World ε) :
    Option (Except ScriptError Value × RunState × World ε) :=
  match env.run script.root.program s (script.limited w) with
  | (.result r, s, w) => some (r, s, { w with deadline := none })
  | (.cut, s, w) =>
    some (.error (.timeout (script.settings.timeout.getD 0)),
      { s with scopes := s.scopes.unwind }, { w with deadline := none })
  | (.stuck, _, _) | (.crash, _, _) => none

/-- Whether the engine crashes in the evaluation of the root chain. -/
def crashesFrom (script : Script β) (env : Environment β ε) (s : RunState) (w : World ε) : Bool :=
  (env.run script.root.program s (script.limited w)).1.isCrash

/-- The last interception of a run, which no signal prevents. -/
def interceptFinish (script : Script β) (env : Environment β ε) (s : RunState) (w : World ε) :
    Option (Except ScriptError Unit × World ε) :=
  match env.debugger with
  | none => some (.ok (), w)
  | some d =>
    let (answer, peers) := d.intercept .finish script.root s.scopes w.peers
    match env.await false answer { w with peers } with
    | (.result r, w) => some (r, w)
    | _ => none

def notifyFinished (env : Environment β ε) (result : Except ScriptError Value) (w : World ε) :
    World ε :=
  match env.debugger with
  | none => w
  | some d =>
    let error := match result with
      | .ok _ => none
      | .error e => some e
    { w with peers := d.finished error w.peers }

/-- Closes the log record of a run. -/
def closeLog (s : RunState) (result : Except ScriptError Value) (time : Time.Timestamp) :
    LogRecord :=
  let log := if s.log.children.isEmpty then s.log else s.log.setGroupComplete s.settled
  let (outcome, details) := verdict result
  match log.finish outcome details time with
  | .ok log => log
  | .error _ => log

/-- Runs a script from start to finish, or `none` if it waits for ever or crashes. A failing last
interception counts only when nothing failed before. -/
def run (script : Script β) (env : Environment β ε) (w : World ε) : Option (Run × World ε) := do
  let (evaluated, s, w) ← script.evaluateRoot env (script.initial env w) w
  let (finish, w) ← script.interceptFinish env s w
  let result := match evaluated, finish with
    | .ok _, .error e => .error e
    | r, _ => r
  let w := notifyFinished env result w
  some ({ result, log := closeLog s result w.moment, globals := s.scopes.globals }, w)

/-- Whether the engine crashes in the course of a run. -/
def crashes (script : Script β) (env : Environment β ε) (w : World ε) : Bool :=
  script.crashesFrom env (script.initial env w) w

/-- Evaluates a script as an expression over some bindings. There is no debugger, no signal and
no log, and the presets of the site do not count. -/
def evaluate (script : Script β) (env : Environment β ε) (presets : Bindings) (w : World ε) :
    Option (Except ScriptError Value × World ε) := do
  let quiet := { env with debugger := none, aborted := fun _ => false }
  let (result, _, w) ← script.evaluateRoot quiet (script.initialOver presets w) w
  some (result, w)

/-- Whether the engine crashes in the course of an evaluation. -/
def evaluationCrashes (script : Script β) (env : Environment β ε) (presets : Bindings)
    (w : World ε) : Bool :=
  let quiet := { env with debugger := none, aborted := fun _ => false }
  script.crashesFrom quiet (script.initialOver presets w) w

end Script

end BlockScript
