import BlockScript.Rehearsal.Kind
import BlockScript.Script
import BlockScript.Stepper
/-!
The stage of a rehearsal: a site that takes down what is asked of it, debuggers that take down
what they see, and a controller that follows orders.
-/

namespace BlockScript.Rehearsal

/-- What a site was asked. -/
inductive Request where
  | call (service : String) (args : List Value)
  | spawn (name : String) (presets : Bindings)

/-- What a debugger saw. A recorder also notes the variables it watches. -/
inductive Sighting where
  | stopped (event : StopEvent) (watched : Option (List (Value × Bool)))
  | finished (error : Option String)

/-- What the controller of a stepper does at a stop. -/
inductive Order where
  | send (commands : List StepCommand)
  /-- Raises the abort signal and sends nothing. -/
  | kill
  /-- Goes away. -/
  | drop

structure Stage where
  /-- Whether the shared abort signal is raised. -/
  aborted : Bool := false
  requests : List Request := []
  sightings : List Sighting := []
  /-- Interceptions seen by the recorder, over all runs. -/
  intercepted : Nat := 0
  stepper : Stepper := {}
  /-- What the controller will do at the next stops. -/
  orders : List Order := []
  /-- Whether the controller answers stops at all. -/
  attentive : Bool := true

namespace Stage

def raise (s : Stage) : Stage := { s with aborted := true }

def note (s : Stage) (r : Request) : Stage := { s with requests := s.requests ++ [r] }

def see (s : Stage) (x : Sighting) : Stage := { s with sightings := s.sightings ++ [x] }

def follow (s : Stage) : Order → Stage
  | .send commands => { s with stepper := commands.foldl Stepper.send s.stepper }
  | .kill => s.raise
  | .drop => { s with stepper := s.stepper.abandon }

/-- The controller reads one event. At a stop it follows its next order, or releases the script
when there are none left. -/
def read (s : Stage) (e : StepEvent) : Stage :=
  if s.stepper.abandoned then s
  else
    match e with
    | .finished error => s.see (.finished error)
    | .stopped event =>
      let s := s.see (.stopped event none)
      if event.reason = .finish || !s.attentive then s
      else
        match s.orders with
        | [] => s.follow (.send [.release])
        | o :: rest => { s with orders := rest }.follow o

/-- The controller reads what there is to read. -/
def react (s : Stage) : Stage :=
  s.stepper.events.foldl read { s with stepper := { s.stepper with events := [] } }

/-- All orders are carried out in advance, then a release is sent, and the controller only
listens from then on. -/
def carryOut (s : Stage) : Stage :=
  let s := s.orders.foldl follow s
  { s.follow (.send [.release]) with orders := [], attentive := false }

end Stage

/-! Sites. -/

/-- Services that answer from their arguments alone. -/
def services : Entries (List Value → Except ScriptError Value) :=
  Entries.ofList
    [("echo", fun args => .ok (args.headD .null)),
      ("count", fun args => .ok (.number (Float.ofNat args.length))),
      ("list", fun args => .ok (.list args)),
      ("type", fun args => .ok (.string ((args.head?.map Value.typeName).getD "none"))),
      ("sum", fun args => do
        let total ← args.foldlM (fun t v => do
          let x ← v.toNumber
          .ok (t + x)) 0.0
        .ok (.number total)),
      ("fail", fun args => .error (.site (String.intercalate "|" (args.map Value.text))))]

/-- The fixed services, and one that raises the abort signal. -/
def fixedSite (presets : Bindings) : Site Stage :=
  let site : Site Stage := Site.fixed presets services
  { site with
    call := fun service args s =>
      if service = "abort" then (.now (.ok (.string "abort requested")), s.raise)
      else site.call service args s }

/-- What a child run does: it comes to a state at once, or is never heard of. -/
inductive ChildPlan where
  | reports (child : Child)
  | silent

/-- Takes down every request. Some services never answer, or take their time. -/
def recordingSite (presets : Bindings) (children : Entries ChildPlan) : Site Stage :=
  let site := fixedSite presets
  { presets
    call := fun service args s =>
      let s := s.note (.call service args)
      match service with
      | "hang" => (.never, s)
      | "abort_hang" => (.never, s.raise)
      | "sleep" =>
        match (args.headD .null).toNumber with
        | .ok x => (.later x.toUInt64.toNat (.ok (.string "slept")), s)
        | .error e => (.now (.error e), s)
      | _ => site.call service args s
    spawn := fun name given s =>
      let s := s.note (.spawn name given)
      match Entries.value? name children with
      | some (.reports child) => (.now (.ok child), s)
      | some .silent => (.never, s)
      | none => (.now (.error (Site.noChildren name)), s) }

/-! Debuggers. -/

/-- An interception to fail: by its number, or by its reason. -/
structure Rejection where
  number : Option Nat
  reason : Option StopReason
  error : ScriptError

namespace Rejection

def applies (r : Rejection) (number : Nat) (reason : StopReason) : Bool :=
  r.number == some number || r.reason == some reason

end Rejection

def silent : Debugger Kind Stage where
  intercept _ _ _ s := (.now (.ok ()), s)
  finished _ s := s

/-- Takes down every interception, and fails those it is told to. -/
def recorder (watch : List String) (rejections : List Rejection) : Debugger Kind Stage where
  intercept reason block scopes s :=
    let watched := watch.map fun name => (scopes.get name, scopes.contains name)
    let rejected := rejections.find? fun r => r.applies s.intercepted reason
    let s := { s with intercepted := s.intercepted + 1 }.see
      (.stopped (StopEvent.of reason block scopes) (some watched))
    (.now (rejected.elim (.ok ()) fun r => .error r.error), s)
  finished error s := s.see (.finished (error.map ScriptError.message))

def stepper : Debugger Kind Stage :=
  Stepper.debuggerIn (fun s => s.stepper) fun s t => { s with stepper := t }

/-! Runs on a stage. -/

def environment (site : Site Stage) (debugger : Option (Debugger Kind Stage)) (shared : Bool) :
    Environment Kind Stage where
  site := site
  debugger := debugger
  aborted s := shared && s.aborted
  abort := Stage.raise
  react := Stage.react

/-- Schedules an abort some milliseconds from now, or raises the signal at once. -/
def scheduleAbort (w : World Stage) : (after : Option Nat) → World Stage
  | none => { w with abortAt := none }
  | some 0 => { w with peers := w.peers.raise, abortAt := none }
  | some ms => { w with abortAt := some (w.now + ms) }

/-- Runs a script, under the shared abort signal or under one of its own. The controller reads
the last events after the run, and an abort scheduled for later is forgotten. -/
def run (script : Script Kind) (site : Site Stage) (debugger : Option (Debugger Kind Stage))
    (shared : Bool) (abortAfter : Option Nat) (w : World Stage) : Option (Run × World Stage) := do
  let env := environment site debugger shared
  let (r, w) ← script.run env (scheduleAbort w abortAfter)
  some (r, { w with peers := w.peers.react, abortAt := none })

def evaluate (script : Script Kind) (site : Site Stage) (presets : Bindings) (w : World Stage) :
    Option (Except ScriptError Value × World Stage) :=
  script.evaluate (environment site none false) presets w

end BlockScript.Rehearsal
