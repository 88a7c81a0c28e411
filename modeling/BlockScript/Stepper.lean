import BlockScript.Environment
/-!
A debugger that stops at every enter and leave until it is told to go on.

What it sees it publishes as events; a controller reads them and sends commands. Once released it
no longer stops, also in later runs.
-/

namespace BlockScript

/-- Where a stepper stopped. -/
structure StopEvent where
  id : Option String
  kind : String
  reason : StopReason
  depth : Nat
  deriving DecidableEq, Repr

namespace StopEvent

def of {β : Type} (reason : StopReason) (block : Block β) (scopes : Scopes) : StopEvent :=
  { id := block.id, kind := block.kind, reason, depth := scopes.depth }

end StopEvent

inductive StepEvent where
  | stopped (event : StopEvent)
  /-- The run is over, with the text of its error. -/
  | finished (error : Option String)
  deriving DecidableEq, Repr

inductive StepCommand where
  /-- Go on to the next stop. -/
  | step
  /-- Go on without stopping again. -/
  | release
  /-- Fail the pending stop. -/
  | abort
  deriving DecidableEq, Repr

structure Stepper where
  free : Bool := false
  /-- Commands sent and not yet obeyed. -/
  commands : List StepCommand := []
  /-- Events published and not yet read. -/
  events : List StepEvent := []
  /-- Whether the controller is gone. -/
  abandoned : Bool := false
  deriving DecidableEq, Repr

namespace Stepper

def publish (s : Stepper) (e : StepEvent) : Stepper :=
  if s.abandoned then s else { s with events := s.events ++ [e] }

def send (s : Stepper) (c : StepCommand) : Stepper :=
  if s.abandoned then s else { s with commands := s.commands ++ [c] }

/-- The controller goes away; what it did not read is lost, what it sent is still obeyed. -/
def abandon (s : Stepper) : Stepper :=
  { s with abandoned := true, events := [] }

/-- Obeys the next command. Without a controller the lack of commands is a release. -/
def obey (s : Stepper) : Option (Except ScriptError Unit × Stepper) :=
  match s.commands with
  | .step :: rest => some (.ok (), { s with commands := rest })
  | .release :: rest => some (.ok (), { s with commands := rest, free := true })
  | .abort :: rest => some (.error .aborted, { s with commands := rest })
  | [] => if s.abandoned then some (.ok (), { s with free := true }) else none

/-- A stop. The last one of a run is only published. -/
def stop (s : Stepper) (event : StopEvent) : Answer Stepper Unit × Stepper :=
  if event.reason = .finish then (.now (.ok ()), s.publish (.stopped event))
  else if s.free then (.now (.ok ()), s)
  else
    let s := s.publish (.stopped event)
    match s.obey with
    | some (r, s) => (.now r, s)
    | none => (.once obey, s)

/-- The stepper as a debugger, where it is a part of a larger state. -/
def debuggerIn {β ε : Type} (part : ε → Stepper) (replace : ε → Stepper → ε) : Debugger β ε where
  intercept reason block scopes e :=
    match (part e).stop (StopEvent.of reason block scopes) with
    | (.now r, s) => (.now r, replace e s)
    | (.later ms r, s) => (.later ms r, replace e s)
    | (.once ready, s) =>
      (.once fun e => (ready (part e)).map fun (r, s) => (r, replace e s), replace e s)
  finished error e := replace e ((part e).publish (.finished (error.map ScriptError.message)))

def debugger {β : Type} : Debugger β Stepper :=
  debuggerIn (fun s => s) fun _ s => s

end Stepper

end BlockScript
