import BlockScript.Program
/-!
Kinds that read and assign variables.
-/

namespace BlockScript.Kinds

variable {β : Type}

/-- The name a block refers to: plain text, or a reference with a name or, failing that, an
id. -/
def variableName (h : Header β) : Except ScriptError String := do
  match ← h.field "VAR" with
  | .string name => .ok name
  | .object reference =>
    let entry := (Entries.value? "name" reference).orElse fun _ => Entries.value? "id" reference
    match entry.bind Json.asString? with
    | some name => .ok name
    | none => .error (h.invalidField "VAR" "variable reference has no name")
  | _ => .error (h.invalidField "VAR" "expected a variable name")

def getBlock (h : Header β) : Program β Value := do
  let name ← variableName h
  Program.perform (.lookup name)

def setBlock (h : Header β) (inputs : Inputs β) : Program β Value := do
  let name ← variableName h
  let value ← inputs.required h "VALUE"
  Program.perform (.assign name value)
  pure .null

def setGlobalBlock (h : Header β) (inputs : Inputs β) : Program β Value := do
  let name ← variableName h
  let value ← inputs.required h "VALUE"
  Program.perform (.assignGlobal name value)
  pure .null

end BlockScript.Kinds
