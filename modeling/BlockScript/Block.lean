import BlockScript.Value
/-!
Blocks: what a block says of itself, the blocks plugged into its slots, and the block that
follows it.

The type `β` of behaviours is a parameter, so that a catalog of kinds can be extended.
-/

namespace BlockScript

/-- Configuration of a block, beyond its fields. -/
structure Mutation where
  domain : String
  name : String
  value : Json

namespace Mutation

def defaultDomain : String := "config"

end Mutation

/-- What a block says of itself, its connections aside. -/
structure Header (β : Type) where
  kind : String
  id : Option String
  behavior : β
  fields : Entries Json
  mutations : List Mutation

inductive Block (β : Type) where
  | mk (header : Header β) (inputs : List (String × Block β)) (next : Option (Block β))

namespace Header

variable {β : Type}

/-- What messages call the block. -/
def label (h : Header β) : String :=
  h.id.getD "?"

def invalidField (h : Header β) (name reason : String) : ScriptError :=
  .invalidField h.kind name reason

/-- The literal of a field that has to be there. -/
def field (h : Header β) (name : String) : Except ScriptError Json :=
  match Entries.value? name h.fields with
  | some j => .ok j
  | none => .error (.missingField h.kind h.label name)

def fieldText (h : Header β) (name : String) : Except ScriptError String := do
  match ← h.field name with
  | .string s => .ok s
  | _ => .error (h.invalidField name "expected a string")

/-- The number in a field, which may be spelled as text. -/
def fieldNumber (h : Header β) (name : String) : Except ScriptError Float := do
  match ← h.field name with
  | .number n => .ok n.toFloat
  | .string s =>
    match Decimal.ofText? s with
    | some x => .ok x
    | none => .error (h.invalidField name "expected a number")
  | _ => .error (h.invalidField name "expected a number")

/-- The first mutation of a name in a domain. -/
def mutation? (h : Header β) (domain name : String) : Option Json :=
  (h.mutations.find? fun m => m.domain == domain && m.name == name).map Mutation.value

/-- A count in the default domain, 0 when there is none. -/
def count (h : Header β) (name : String) : Nat :=
  match h.mutation? Mutation.defaultDomain name with
  | some (.number n) => (Json.asNat? (.number n)).getD 0
  | some (.string s) => (Decimal.count? (Text.trim s)).getD 0
  | _ => 0

/-- A flag in the default domain, unset when there is none. -/
def flag (h : Header β) (name : String) : Bool :=
  match h.mutation? Mutation.defaultDomain name with
  | some (.bool b) => b
  | some (.string s) => s == "true" || s == "1"
  | some (.number n) => n.toFloat != 0.0
  | _ => false

end Header

namespace Block

variable {β : Type}

def header : Block β → Header β
  | .mk h _ _ => h

def inputs : Block β → List (String × Block β)
  | .mk _ is _ => is

def next : Block β → Option (Block β)
  | .mk _ _ n => n

def kind (b : Block β) : String := b.header.kind

def id (b : Block β) : Option String := b.header.id

def input? (b : Block β) (slot : String) : Option (Block β) :=
  Entries.value? slot b.inputs

/-- The number of blocks in the chain that starts here. -/
def chainLength : Block β → Nat
  | .mk _ _ none => 1
  | .mk _ _ (some n) => n.chainLength + 1

end Block

end BlockScript
