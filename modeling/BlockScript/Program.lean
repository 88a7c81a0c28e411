import BlockScript.Block
import BlockScript.Log.Modifier
import BlockScript.Scope
/-!
Programs: what evaluating a block asks of its surroundings, as a tree.

A program is done, with a value or an error, or it performs an action and goes on with the reply.
It knows nothing of sites, debuggers, signals or time; those belong to whoever performs the
actions. A scope that a program opens it also closes, whether its body ends with a value or an
error. Where no reply comes, it goes no further.
-/

namespace BlockScript

/-- A run started on behalf of another. -/
structure Child where
  id : String
  /-- How the child stood when it was reported. -/
  outcome : Outcome
  deriving DecidableEq, Repr

inductive Action (β : Type) where
  /-- Fails once an abort was requested. -/
  | checkAbort
  /-- Gives the debugger a chance to stop. -/
  | stop (reason : StopReason) (block : Block β)
  | lookup (name : String)
  | assign (name : String) (value : Value)
  | assignGlobal (name : String) (value : Value)
  /-- Opens a scope under the current one; the reply is the scope to go back to. -/
  | openScope
  /-- Opens a scope under the root. -/
  | openRootScope
  | closeScope (previous : Nat)
  | attach (modifier : Log.Modifier)
  /-- Calls a service of the site, giving up when an abort is requested. -/
  | call (service : String) (args : List Value)
  /-- Starts a child run through the site, giving up when an abort is requested. -/
  | spawn (name : String) (presets : Bindings)
  /-- Lets time pass, giving up when an abort is requested. -/
  | wait (milliseconds : Nat)
  /-- Lets time pass whatever happens. -/
  | sleep (milliseconds : Nat)
  | scopeDepth
  | readLog
  /-- Makes room for so many values in one piece, before there is any. -/
  | reserve (count : Nat)
  /-- Crashes the engine. -/
  | crash

namespace Action

/-- What comes back when an action succeeds. -/
@[reducible] def Reply {β : Type} : Action β → Type
  | .lookup _ => Value
  | .openScope => Nat
  | .openRootScope => Nat
  | .call _ _ => Value
  | .spawn _ _ => Child
  | .scopeDepth => Nat
  | .readLog => LogRecord
  | .crash => Empty
  | _ => Unit

end Action

inductive Program (β α : Type) where
  | done (result : Except ScriptError α)
  | act (action : Action β) (resume : Except ScriptError action.Reply → Program β α)

namespace Program

variable {β α γ : Type}

def fail (e : ScriptError) : Program β α :=
  .done (.error e)

/-- Goes on with the value of a program; an error ends it all. -/
def bind : Program β α → (α → Program β γ) → Program β γ
  | .done (.ok a), f => f a
  | .done (.error e), _ => .done (.error e)
  | .act action resume, f => .act action fun reply => (resume reply).bind f

instance : Monad (Program β) where
  pure a := .done (.ok a)
  bind := bind

instance : MonadLift (Except ScriptError) (Program β) where
  monadLift r := .done r

/-- Performs one action. -/
def perform (action : Action β) : Program β action.Reply :=
  .act action .done

/-- Nothing follows a crash. -/
def crash : Program β α :=
  perform .crash >>= Empty.elim

/-- Closes a scope when a program is done, whatever its result. -/
def closing (previous : Nat) : Program β α → Program β α
  | .done result => .act (.closeScope previous) fun _ => .done result
  | .act action resume => .act action fun reply => (resume reply).closing previous

/-- Runs a program in a scope of its own. -/
def inScope (p : Program β α) : Program β α := do
  let previous ← perform .openScope
  closing previous p

/-- Runs a program in a scope of its own under the root. -/
def inRootScope (p : Program β α) : Program β α := do
  let previous ← perform .openRootScope
  closing previous p

/-- Calls a service, unless an abort was requested before. -/
def callSite (service : String) (args : List Value) : Program β Value := do
  perform .checkAbort
  perform (.call service args)

/-- Starts a child run and links it to this one. -/
def spawnChild (name : String) (presets : Bindings) : Program β String := do
  perform .checkAbort
  let child ← perform (.spawn name presets)
  perform (.attach (.childScript child.id))
  pure child.id

end Program

/-- The programs of the blocks plugged into the slots of a block. -/
abbrev Inputs (β : Type) := Entries (Program β Value)

namespace Inputs

variable {β : Type}

/-- The value of a slot that has to be connected. -/
def required (inputs : Inputs β) (h : Header β) (slot : String) : Program β Value :=
  match Entries.value? slot inputs with
  | some p => p
  | none => .fail (.missingInput h.kind h.label slot)

/-- The value of a slot, if it is connected. -/
def optional (inputs : Inputs β) (slot : String) : Program β (Option Value) :=
  match Entries.value? slot inputs with
  | some p => do
    let v ← p
    pure (some v)
  | none => pure none

/-- Runs the statements in a slot; without any the result is null. -/
def statements (inputs : Inputs β) (slot : String) : Program β Value :=
  match Entries.value? slot inputs with
  | some p => p
  | none => pure .null

end Inputs

/-- Behaviours of blocks: the program of a block's own evaluation, from what it says of itself and
the programs of its inputs. -/
class Behavior (β : Type) where
  program : β → Header β → Inputs β → Program β Value

namespace Block

variable {β : Type} [Behavior β]

/-- The program of the chain that starts with a block. Each block is entered, evaluated and left
before the next one is touched; the result is that of the last. -/
def program : Block β → Program β Value
  | .mk h inputs next => do
    Program.perform .checkAbort
    Program.perform (.stop .enter (.mk h inputs next))
    let v ← Behavior.program h.behavior h (inputPrograms inputs)
    Program.perform (.stop .leave (.mk h inputs next))
    continuation v next
where
  inputPrograms : List (String × Block β) → Inputs β
    | [] => []
    | (slot, b) :: rest => (slot, b.program) :: inputPrograms rest
  continuation (v : Value) : Option (Block β) → Program β Value
    | none => pure v
    | some b => b.program

end Block

end BlockScript
