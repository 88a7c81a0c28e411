import BlockScript.Json.Syntax
import BlockScript.Nesting
import BlockScript.Registry
/-!
The block tree of a document.

A document is a block, or a workspace with exactly one block at the top. Checks run in a fixed
order: what a block says of itself, then its inputs, its values, its mutations and the block that
follows, each plugged block completely before the next place is looked at. The first fault found
is the one reported.
-/

namespace BlockScript.Document

/-- The root block's place in a document, and the node found there. -/
def rootNode (document : Json) : Except ParseError (Json × Path) :=
  match document with
  | .object es =>
    if Entries.binds "type" es then .ok (document, { base := "$" })
    else
      match Entries.value? "blocks" es with
      | none => .error (.malformed { base := "$" } .noTypeOrBlocks)
      | some (.array items) => single items "$.blocks"
      | some (.object workspace) =>
        match Entries.value? "blocks" workspace with
        | some (.array items) => single items "$.blocks.blocks"
        | some _ => .error (.malformed { base := "$.blocks.blocks" } .blocksNotAnArray)
        | none => .error .noRoot
      | some _ => .error (.malformed { base := "$.blocks" } .blocksNotAContainer)
  | _ => .error (.malformed { base := "$" } .notADocument)
where
  single (items : List Json) (base : String) : Except ParseError (Json × Path) :=
    match items with
    | [] => .error .noRoot
    | [root] => .ok (root, { base := base ++ "[0]" })
    | many => .error (.multipleRoots many.length)

/-- The kind a node names, with its behaviour. -/
def readKind {β : Type} (registry : Registry β) (path : Path) (es : Entries Json) :
    Except ParseError (String × β) :=
  match Entries.value? "type" es with
  | some (.string kind) =>
    match registry.behavior? kind with
    | some behavior => .ok (kind, behavior)
    | none => .error (.unknownKind kind path)
  | some _ => .error (.malformed path .typeNotAString)
  | none => .error (.malformed path .typeMissing)

def readId (path : Path) (es : Entries Json) : Except ParseError (Option String) :=
  match Entries.value? "id" es with
  | none | some .null => .ok none
  | some (.string id) => .ok (some id)
  | some _ => .error (.malformed path .idNotAString)

def readFields (path : Path) (es : Entries Json) : Except ParseError (Entries Json) :=
  match Entries.value? "fields" es with
  | none | some .null => .ok []
  | some (.object fields) => .ok fields
  | some _ => .error (.malformed path .fieldsNotAnObject)

def readMutation (path : Path) : Json → Except ParseError Mutation
  | .object es => do
    let domain ← match Entries.value? "domain" es with
      | none | some .null => .ok Mutation.defaultDomain
      | some (.string domain) => .ok domain
      | some _ => .error (.malformed path .domainNotAString)
    match Entries.value? "name" es with
    | some (.string name) =>
      .ok { domain, name, value := (Entries.value? "value" es).getD .null }
    | _ => .error (.malformed path .mutationUnnamed)
  | _ => .error (.malformed path .notAMutation)

def readMutationItems (path : Path) : (index : Nat) → List Json → Except ParseError (List Mutation)
  | _, [] => .ok []
  | index, item :: items => do
    let m ← readMutation (path.down (.mutation index)) item
    let ms ← readMutationItems path (index + 1) items
    .ok (m :: ms)

/-- The entries of the extra state are mutations in the default domain, after the others. -/
def extraMutations (es : Entries Json) : List Mutation :=
  match Entries.value? "extraState" es with
  | none | some .null => []
  | some (.object state) => state.map fun e => ⟨Mutation.defaultDomain, e.1, e.2⟩
  | some other => [⟨Mutation.defaultDomain, "extraState", other⟩]

def readMutations (path : Path) (es : Entries Json) : Except ParseError (List Mutation) := do
  let listed ← match Entries.value? "mutations" es with
    | none | some .null => .ok []
    | some (.array items) => readMutationItems path 0 items
    | some _ => .error (.malformed path .mutationsNotAnArray)
  .ok (listed ++ extraMutations es)

/-- The member of a connection that holds the plugged block: the block proper if there is one,
otherwise its shadow. -/
def plugName (connection : Entries Json) : String :=
  match Entries.value? "block" connection with
  | none | some .null => "shadow"
  | some _ => "block"

mutual

/-- The block of a node. -/
def block {β : Type} (registry : Registry β) (path : Path) : Json → Except ParseError (Block β)
  | .object es => do
    let (kind, behavior) ← readKind registry path es
    let id ← readId path es
    let fields ← readFields path es
    let inputs ← sectionOf registry path "inputs" es
    let values ← sectionOf registry path "values" es
    let mutations ← readMutations path es
    let next ← nextOf registry path es
    .ok (.mk { kind, id, behavior, fields, mutations }
      (values.foldl (fun acc e => Entries.put e.1 e.2 acc) (Entries.ofList inputs)) next)
  | _ => .error (.malformed path .notABlock)

/-- The blocks plugged into the slots of a section, looked up by its key. -/
def sectionOf {β : Type} (registry : Registry β) (path : Path) (key : String) :
    List (String × Json) → Except ParseError (List (String × Block β))
  | [] => .ok []
  | (k, v) :: rest =>
    if k = key then slots registry path key v else sectionOf registry path key rest

def slots {β : Type} (registry : Registry β) (path : Path) (key : String) :
    Json → Except ParseError (List (String × Block β))
  | .null => .ok []
  | .object es => slotEntries registry path key es
  | _ => .error (.malformed path (.sectionNotAnObject key))

def slotEntries {β : Type} (registry : Registry β) (path : Path) (key : String) :
    List (String × Json) → Except ParseError (List (String × Block β))
  | [] => .ok []
  | (slot, v) :: rest => do
    let plugged ← connection registry (path.down (.slot key slot)) v
    let others ← slotEntries registry path key rest
    match plugged with
    | some b => .ok ((slot, b) :: others)
    | none => .ok others

/-- The block that follows, if any. -/
def nextOf {β : Type} (registry : Registry β) (path : Path) :
    List (String × Json) → Except ParseError (Option (Block β))
  | [] => .ok none
  | (k, v) :: rest =>
    if k = "next" then
      if v.isNull then .ok none else connection registry (path.down .next) v
    else nextOf registry path rest

/-- The block plugged into a connection, if any. -/
def connection {β : Type} (registry : Registry β) (path : Path) :
    Json → Except ParseError (Option (Block β))
  | .object es => plugged registry path (plugName es) es
  | _ => .error (.malformed path .notAConnection)

def plugged {β : Type} (registry : Registry β) (path : Path) (name : String) :
    List (String × Json) → Except ParseError (Option (Block β))
  | [] => .ok none
  | (k, v) :: rest =>
    if k = name then
      if v.isNull then .ok none else (block registry path v).map some
    else plugged registry path name rest

end

/-- The tree of a decoded document. -/
def build {β : Type} (registry : Registry β) (document : Json) : Except ParseError (Block β) := do
  let (root, path) ← rootNode document
  block registry path root

/-- The tree of a text. Nesting is checked before anything else. -/
def parse {β : Type} (registry : Registry β) (text : String) : Except ParseError (Block β) :=
  let depth := Nesting.depth text.toList
  if Nesting.limit < depth then
    .error (.malformed { base := "$" } (.tooDeep depth Nesting.limit))
  else
    match Json.ofNestedText? text with
    | none => .error .notJson
    | some document => build registry document

end BlockScript.Document
