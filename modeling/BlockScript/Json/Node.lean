import BlockScript.Json.Syntax
/-!
Reading records from JSON. A record is an object with its fields by name, or an array with its
fields by position. What a field is read from is a `Node`: a JSON tree, or a part of a text that
is decoded only where a field asks for it, so that unknown members need only be well written.
-/

namespace BlockScript.Json

/-- A part of a text, and how many arrays and objects around it are open. -/
structure Source where
  level : Nat
  content : Syntax

/-- What records can be read from. -/
class Node (α : Type) where
  isNull : α → Bool
  string? : α → Option String
  bool? : α → Option Bool
  nat? : α → Option Nat
  items? : α → Option (List α)
  members? : α → Option (List (String × α))
  json? : α → Option Json

instance : Node Json where
  isNull := Json.isNull
  string? := Json.asString?
  bool?
    | .bool b => some b
    | _ => none
  nat? := Json.asNat?
  items?
    | .array items => some items
    | _ => none
  members?
    | .object es => some es
    | _ => none
  json? := some

namespace Source

/-- The inside of an array or object counts against the limit on nesting. -/
def inner? (s : Source) : Option Nat :=
  if s.level + 1 < nestingLimit then some (s.level + 1) else none

def items? (s : Source) : Option (List Source) :=
  match s.content, s.inner? with
  | .array items, some level => some (items.map (Source.mk level))
  | _, _ => none

def readMembers (level : Nat) : List (StringToken × Syntax) → Option (List (String × Source))
  | [] => some []
  | (name, v) :: rest =>
    match name.text?, readMembers level rest with
    | some n, some ms => some ((n, { level, content := v }) :: ms)
    | _, _ => none

def members? (s : Source) : Option (List (String × Source)) :=
  match s.content, s.inner? with
  | .object members, some level => readMembers level members
  | _, _ => none

def json? (s : Source) : Option Json :=
  if s.level + s.content.depth < nestingLimit then s.content.json? else none

end Source

instance : Node Source where
  isNull s := match s.content with
    | .null => true
    | _ => false
  string? s := match s.content with
    | .string t => t.text?
    | _ => none
  bool? s := match s.content with
    | .bool b => some b
    | _ => none
  nat? s := match s.content with
    | .number n => n.number?.bind fun m => Json.asNat? (.number m)
    | _ => none
  items? := Source.items?
  members? := Source.members?
  json? := Source.json?

/-- The whole of a text, to be decoded. -/
def source? (text : String) : Option Source :=
  (Syntax.ofText? text).map fun s => { level := 0, content := s }

namespace Node

variable {α β : Type} [Node α]

/-- The one member with a name, if there is one; two of them are refused. -/
def unique? (name : String) (members : List (String × α)) : Option (Option α) :=
  match members.filter fun m => m.1 == name with
  | [] => some none
  | [m] => some (some m.2)
  | _ => none

/-- What stands for each field of a record. Members with other names are left alone, and an array
may not be longer than the record. -/
def fields? (names : List String) (x : α) : Option (List (Option α)) :=
  match members? x with
  | some members => names.mapM fun n => unique? n members
  | none =>
    match items? x with
    | some items =>
      if items.length ≤ names.length then
        some (items.map some ++ List.replicate (names.length - items.length) none)
      else none
    | none => none

/-- A field that has to be there. -/
def required (read : α → Option β) : Option α → Option β
  | some x => read x
  | none => none

/-- A field that may be missing or null. -/
def optional (read : α → Option β) : Option α → Option (Option β)
  | some x => if isNull x then some none else (read x).map some
  | none => some none

/-- A field that may be missing, but is not null. -/
def defaulted (missing : β) (read : α → Option β) : Option α → Option β
  | some x => read x
  | none => some missing

/-- An array whose items are all readable. -/
def listOf (read : α → Option β) (x : α) : Option (List β) :=
  (items? x).bind fun items => items.mapM read

/-- An object of raw values; of two members with one name the later counts. -/
def entriesOf (read : α → Option β) (x : α) : Option (Entries β) :=
  (members? x).bind fun members =>
    (members.mapM fun m => (read m.2).map fun v => (m.1, v)).map Entries.ofList

/-- The name of a constant: a string, or an object whose only member has that name and is null. -/
def constant? (x : α) : Option String :=
  match string? x with
  | some s => some s
  | none =>
    match members? x with
    | some [(name, v)] => if isNull v then some name else none
    | _ => none

end Node

end BlockScript.Json
