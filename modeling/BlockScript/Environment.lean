import BlockScript.Program
/-!
The surroundings of a run: the site it calls, the debugger that watches it, the signal that stops
it, and the clock.

All collaborators of a run share one state of type `ε`. They act when the script turns to them,
and between times only while the script waits. Time is virtual: the clock stands still while
anything can run, and goes to the next moment at which something is due when everything waits.
-/

namespace BlockScript

open Time (Timestamp)

/-- What a collaborator answers. -/
inductive Answer (ε α : Type) where
  | now (result : Except ScriptError α)
  /-- After some milliseconds. -/
  | later (milliseconds : Nat) (result : Except ScriptError α)
  /-- As soon as the collaborators have moved on far enough. -/
  | once (ready : ε → Option (Except ScriptError α × ε))

namespace Answer

variable {ε α : Type}

def never : Answer ε α :=
  .once fun _ => none

end Answer

/-- What a script is run against. -/
structure Site (ε : Type) where
  /-- What the root scope holds before the first block runs. -/
  presets : Bindings
  call : String → List Value → ε → Answer ε Value × ε
  spawn : String → Bindings → ε → Answer ε Child × ε
  /-- Whether there is memory for so many values in one piece. -/
  room : Nat → ε → Bool := fun _ _ => true

namespace Site

variable {ε : Type}

/-- The most values that any memory holds in one piece: a value takes 32 bytes, and a piece has
fewer bytes than 63 bits count. -/
def capacity : Nat := (Nat.pow 2 63 - 1) / 32

/-- Whether room for so many values can be made. -/
def grants (site : Site ε) (count : Nat) (e : ε) : Bool :=
  count ≤ capacity && site.room count e

def unknownService (service : String) : ScriptError :=
  .site s!"Unknown service '{service}'"

def noChildren (name : String) : ScriptError :=
  .site s!"Sub-scripts are not supported by this site ('{name}')"

/-- A site without services. -/
def bare (presets : Bindings) : Site ε where
  presets
  call service _ s := (.now (.error (unknownService service)), s)
  spawn name _ s := (.now (.error (noChildren name)), s)

/-- A site whose services answer at once and change nothing. -/
def fixed (presets : Bindings) (services : Entries (List Value → Except ScriptError Value)) :
    Site ε :=
  { bare presets with
    call := fun service args s =>
      match Entries.value? service services with
      | some answer => (.now (answer args), s)
      | none => (.now (.error (unknownService service)), s) }

end Site

/-- What watches a run. Failing an interception ends the run. -/
structure Debugger (β ε : Type) where
  intercept : StopReason → Block β → Scopes → ε → Answer ε Unit × ε
  /-- Told once that the run is over, and with what error. -/
  finished : Option ScriptError → ε → ε

structure Environment (β ε : Type) where
  site : Site ε
  debugger : Option (Debugger β ε)
  /-- Whether the abort signal of the run is raised. -/
  aborted : ε → Bool
  /-- What a scheduled abort does. -/
  abort : ε → ε
  /-- What the collaborators do while the script waits. -/
  react : ε → ε

structure World (ε : Type) where
  peers : ε
  /-- The moment at which the clock stood at zero. -/
  origin : Timestamp
  /-- Milliseconds on the clock. -/
  now : Nat := 0
  /-- When an abort is scheduled. -/
  abortAt : Option Nat := none
  /-- When the evaluation is cut off. -/
  deadline : Option Nat := none

namespace World

variable {ε : Type}

def moment (w : World ε) : Timestamp :=
  w.origin.addMilliseconds w.now

end World

/-- How something a script waits for, or a whole program, ends. -/
inductive Ending (α : Type) where
  | result (r : Except ScriptError α)
  /-- Cut off at the deadline. -/
  | cut
  /-- Nothing can ever happen any more. -/
  | stuck
  /-- The engine crashed. Nothing of it is left that could tell anybody. -/
  | crash

namespace Ending

def isCrash {α : Type} : Ending α → Bool
  | crash => true
  | _ => false

end Ending

namespace Environment

variable {β ε α : Type}

/-- Lets the clock reach a scheduled abort, when nothing else is due before. -/
def passAbort (env : Environment β ε) (due : Option Nat) (w : World ε) : World ε :=
  match w.abortAt with
  | none => w
  | some t =>
    if due.all (t ≤ ·) && w.deadline.all (t ≤ ·) then
      { w with peers := env.abort w.peers, now := max w.now t, abortAt := none }
    else w

/-- Waits for the clock: for what is due, or for the deadline if that comes first. -/
def passTime (due : Option (Nat × Except ScriptError α)) (w : World ε) : Ending α × World ε :=
  match due, w.deadline with
  | none, none => (.stuck, w)
  | some (t, r), none => (.result r, { w with now := t })
  | none, some d => (.cut, { w with now := d })
  | some (t, r), some d =>
    if t ≤ d then (.result r, { w with now := t }) else (.cut, { w with now := d })

/-- Waits. A deadline that has passed cuts at once; otherwise the collaborators move first, and
then the clock. With `raced`, a raised signal ends the waiting. -/
def suspend (env : Environment β ε) (raced : Bool) (due : Option (Nat × Except ScriptError α))
    (ready : ε → Option (Except ScriptError α × ε)) (w : World ε) : Ending α × World ε :=
  if w.deadline.any (· ≤ w.now) then (.cut, w)
  else
    let w := { w with peers := env.react w.peers }
    if raced && env.aborted w.peers then (.result (.error .aborted), w)
    else
      match ready w.peers with
      | some (r, peers) => (.result r, { w with peers })
      | none =>
        let w := env.passAbort (due.map Prod.fst) w
        if raced && env.aborted w.peers then (.result (.error .aborted), w)
        else passTime due w

/-- Waits for an answer. -/
def await (env : Environment β ε) (raced : Bool) (answer : Answer ε α) (w : World ε) :
    Ending α × World ε :=
  match answer with
  | .now r => (.result r, w)
  | .later ms r =>
    if ms = 0 then (.result r, w) else env.suspend raced (some (w.now + ms, r)) (fun _ => none) w
  | .once ready => env.suspend raced none ready w

/-- Turns to a collaborator, unless the signal is raised already, and waits for its answer or the
signal. -/
def race (env : Environment β ε) (ask : ε → Answer ε α × ε) (w : World ε) : Ending α × World ε :=
  if env.aborted w.peers then (.result (.error .aborted), w)
  else
    let (answer, peers) := ask w.peers
    env.await true answer { w with peers }

end Environment

end BlockScript
