import BlockScript.Kinds
import BlockScript.Rehearsal.Modifier
/-!
Kinds for rehearsals, beside the standard ones. They reach the corners that no standard kind
reaches: raising any error, letting time pass, and looking at the scopes and the log.
-/

namespace BlockScript.Rehearsal

inductive Kind where
  | stock (s : Stock)
  /-- A number, whatever the block says. -/
  | constant (x : Float)
  | double
  | list
  /-- Runs its statements in a scope under the root. -/
  | call
  | link
  | count
  | broken
  | log
  | depth
  | raise
  | sleep
  | wait

/-- The error of a given name, with one text in all its places. -/
def errorNamed (name text : String) (milliseconds : Nat) : ScriptError :=
  match name with
  | "Parse" => .parse .noRoot
  | "MissingInput" => .missingInput text text text
  | "MissingField" => .missingField text text text
  | "InvalidField" => .invalidField text text text
  | "Type" => .typeMismatch text text
  | "Failed" => .failed text
  | "Aborted" => .aborted
  | "Timeout" => .timeout milliseconds
  | "Debugger" => .debugger text
  | "Site" => .site text
  | "Modifier" => .modifier (.unknownKind text)
  | _ => .runtime text

/-- What a log record looks like from inside the run. -/
def logSummary (r : LogRecord) : Value :=
  let size (n : Nat) : Value := .number (Float.ofNat n)
  .list [.string r.result.name, .bool r.isFinished, .string r.details, .string r.user,
    size r.modifiers.length, size r.children.length, size r.annotations.length]

namespace Kind

def program : Kind → Header Kind → Inputs Kind → Program Kind Value
  | .stock s, h, inputs => s.program h inputs
  | .constant x, _, _ => pure (.number x)
  | .double, h, inputs => do
    let v ← inputs.required h "NUM"
    let x ← v.toNumber
    pure (.number (x * 2.0))
  | .list, h, inputs => do
    let vs ← Kinds.slotValues h inputs "ITEM" (h.count "itemCount") 0
    pure (.list vs)
  | .call, _, inputs => Program.inRootScope (inputs.statements "DO")
  | .link, h, _ => do
    let id ← h.fieldText "ID"
    Program.perform (.attach (.childScript id))
    pure (.string id)
  | .count, h, _ => do
    Program.perform (.attach (countModifier (h.count "by")))
    pure .null
  | .broken, _, _ => do
    Program.perform (.attach brokenModifier)
    pure .null
  | .log, _, _ => do
    let r ← Program.perform .readLog
    pure (logSummary r)
  | .depth, _, _ => do
    let n ← Program.perform .scopeDepth
    pure (.number (Float.ofNat n))
  | .raise, h, _ => do
    let name ← h.fieldText "KIND"
    let text ← h.fieldText "MESSAGE"
    .fail (errorNamed name text (h.count "ms"))
  | .sleep, h, _ => do
    let x ← h.fieldNumber "MS"
    Program.perform (.sleep x.toUInt64.toNat)
    pure (.string "slept")
  | .wait, h, _ => do
    let x ← h.fieldNumber "MS"
    Program.perform (.wait x.toUInt64.toNat)
    pure (.string "waited")

instance : Behavior Kind := ⟨program⟩

end Kind

def standardRegistry : Registry Kind :=
  Registry.standardIn .stock

/-- The standard kinds and those for rehearsals. -/
def registry : Registry Kind :=
  [("test_double", .double), ("test_list", .list), ("test_call", .call), ("test_link", .link),
    ("test_count", .count), ("test_broken", .broken), ("test_log", .log), ("test_depth", .depth),
    ("test_raise", .raise), ("test_sleep", .sleep), ("test_wait", Kind.wait)].foldl
    (fun r e => r.register e.1 e.2) standardRegistry

end BlockScript.Rehearsal
