import BlockScript.Program
/-!
Kinds that decide what runs: branches, repetition, scopes and failure.
-/

namespace BlockScript.Kinds

variable {β : Type}

/-- Takes the first branch from `index` on whose condition holds. A condition that is not
connected does not hold. -/
def branch (inputs : Inputs β) (otherwise : Program β Value) :
    (count index : Nat) → Program β Value
  | 0, _ => otherwise
  | count + 1, index => do
    let condition ← inputs.optional s!"IF{index}"
    if (condition.getD (.bool false)).truthy then inputs.statements s!"DO{index}"
    else branch inputs otherwise count (index + 1)

/-- There is one branch more than the count of additional ones says. The engine counts them in 64
bits, and crashes when there are too many for that. -/
def ifBlock (h : Header β) (inputs : Inputs β) : Program β Value :=
  let count := h.count "elseIfCount" + 1
  let otherwise := if h.flag "hasElse" then inputs.statements "ELSE" else pure .null
  if count < Nat.pow 2 64 then branch inputs otherwise count 0 else Program.crash

/-- A number of times: the whole part of a positive number, at most what 64 bits hold. -/
def timesOf (x : Float) : Nat :=
  if x.isFinite && x > 0.0 then x.toUInt64.toNat else 0

/-- Runs the body a number of times, each time in a scope of its own. -/
def iterate (inputs : Inputs β) : (times : Nat) → (last : Value) → Program β Value
  | 0, last => pure last
  | times + 1, _ => do
    Program.perform .checkAbort
    let v ← Program.inScope (inputs.statements "DO")
    iterate inputs times v

/-- The number of times comes from a field or, without one, from an input. -/
def repeatBlock (h : Header β) (inputs : Inputs β) : Program β Value := do
  if Entries.binds "TIMES" h.fields then
    let x ← h.fieldNumber "TIMES"
    iterate inputs (timesOf x) .null
  else
    let v ← inputs.required h "TIMES"
    let x ← v.toNumber
    iterate inputs (timesOf x) .null

def scopeBlock (inputs : Inputs β) : Program β Value :=
  Program.inScope (inputs.statements "DO")

def failBlock (inputs : Inputs β) : Program β Value := do
  let message ← inputs.optional "MESSAGE"
  .fail (.failed (message.elim "script reported failure" Value.text))

end BlockScript.Kinds
