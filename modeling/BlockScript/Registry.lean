import BlockScript.Block
/-!
The kinds a document may use, and the definitions handed on to an editor as they were given.
-/

namespace BlockScript

structure Registry (β : Type) where
  behaviors : Entries β := []
  blockDefinitions : List Json := []
  modelDefinitions : List Json := []
  toolbox : List (String × Json) := []

namespace Registry

variable {β : Type}

def empty : Registry β := {}

/-- Binds a kind, in place of what it was bound to. Blocks built before keep their behaviour. -/
def register (r : Registry β) (kind : String) (behavior : β) : Registry β :=
  { r with behaviors := r.behaviors.put kind behavior }

def behavior? (r : Registry β) (kind : String) : Option β :=
  Entries.value? kind r.behaviors

def contains (r : Registry β) (kind : String) : Bool :=
  (r.behavior? kind).isSome

/-- The kinds in order of name. -/
def kinds (r : Registry β) : List String :=
  Entries.names r.behaviors

def addBlockDefinition (r : Registry β) (definition : Json) : Registry β :=
  { r with blockDefinitions := r.blockDefinitions ++ [definition] }

def addModelDefinition (r : Registry β) (definition : Json) : Registry β :=
  { r with modelDefinitions := r.modelDefinitions ++ [definition] }

def addToolboxEntry (r : Registry β) (name : String) (entry : Json) : Registry β :=
  { r with toolbox := r.toolbox ++ [(name, entry)] }

end Registry

end BlockScript
