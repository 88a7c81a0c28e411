import BlockScript.Program
/-!
Kinds that reach outside the script: services of the site, child runs and the log.
-/

namespace BlockScript.Kinds

variable {β : Type}

/-- The values of the slots `NAMEi` from `index` on, all of which have to be connected. -/
def slotValues (h : Header β) (inputs : Inputs β) (name : String) :
    (count index : Nat) → Program β (List Value)
  | 0, _ => pure []
  | count + 1, index => do
    let v ← inputs.required h s!"{name}{index}"
    let rest ← slotValues h inputs name count (index + 1)
    pure (v :: rest)

/-- Room is made for as many arguments as the block says there are. -/
def callBlock (h : Header β) (inputs : Inputs β) : Program β Value := do
  let service ← h.fieldText "SERVICE"
  Program.perform (.reserve (h.count "argCount"))
  let args ← slotValues h inputs "ARG" (h.count "argCount") 0
  Program.callSite service args

/-- The input, if there is one, is a preset of the child. -/
def childBlock (h : Header β) (inputs : Inputs β) : Program β Value := do
  let name ← h.fieldText "SCRIPT"
  let input ← inputs.optional "INPUT"
  let id ← Program.spawnChild name (input.elim [] fun v => [("input", v)])
  pure (.string id)

def tagBlock (h : Header β) (inputs : Inputs β) : Program β Value := do
  let key ← h.fieldText "KEY"
  let value ← inputs.required h "VALUE"
  Program.perform (.attach (.tag key value.toJson))
  pure value

end BlockScript.Kinds
