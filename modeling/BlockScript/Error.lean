import BlockScript.Outcome
import BlockScript.Path
import BlockScript.Time.Duration
/-!
Why a document is no script, why a run fails, and why a log record cannot be decorated. Each
cause has one wording, its `message`.
-/

namespace BlockScript

/-- The ways in which a node of a document is not what its place asks for. -/
inductive Malformation where
  | tooDeep (depth limit : Nat)
  | notADocument
  | noTypeOrBlocks
  | blocksNotAnArray
  | blocksNotAContainer
  | notABlock
  | typeNotAString
  | typeMissing
  | idNotAString
  | fieldsNotAnObject
  /-- A section of connections, such as the inputs, that is no object. -/
  | sectionNotAnObject (key : String)
  | notAConnection
  | mutationsNotAnArray
  | notAMutation
  | domainNotAString
  | mutationUnnamed
  deriving DecidableEq, Repr

namespace Malformation

def message : Malformation → String
  | .tooDeep depth limit => s!"nesting depth {depth} exceeds the limit of {limit}"
  | .notADocument => "expected a block or workspace object"
  | .noTypeOrBlocks => "expected a 'type' or 'blocks' key"
  | .blocksNotAnArray => "expected an array"
  | .blocksNotAContainer => "expected an array or object"
  | .notABlock => "expected a block object"
  | .typeNotAString => "'type' must be a string"
  | .typeMissing => "missing 'type'"
  | .idNotAString => "'id' must be a string"
  | .fieldsNotAnObject => "'fields' must be an object"
  | .sectionNotAnObject key => s!"'{key}' must be an object"
  | .notAConnection => "expected a connection object"
  | .mutationsNotAnArray => "'mutations' must be an array"
  | .notAMutation => "expected a mutation object"
  | .domainNotAString => "'domain' must be a string"
  | .mutationUnnamed => "missing string 'name'"

end Malformation

inductive ParseError where
  /-- A text that is not JSON. Where the fault is and what it is, the JSON reader says in words of
  its own, which would follow the message; they are left out. -/
  | notJson
  | unknownKind (kind : String) (path : Path)
  | malformed (path : Path) (fault : Malformation)
  | noRoot
  | multipleRoots (count : Nat)
  deriving DecidableEq, Repr

namespace ParseError

def message : ParseError → String
  | .notJson => "Invalid script JSON"
  | .unknownKind kind path => s!"Unknown block kind '{kind}' at " ++ path.text
  | .malformed path fault => "Malformed block at " ++ path.text ++ ": " ++ fault.message
  | .noRoot => "Script has no root block"
  | .multipleRoots count => s!"Script must have a single root block, found {count}"

end ParseError

inductive ModifierError where
  | alreadyFinished
  /-- A stored state that describes no modifier of its kind. What is wrong with it, the JSON decoder
  says in words of its own, which would follow the message; they are left out. -/
  | invalidState (kind : String)
  | unknownKind (kind : String)
  deriving DecidableEq, Repr

namespace ModifierError

def message : ModifierError → String
  | .alreadyFinished => "Log record is already finished"
  | .invalidState kind => s!"Invalid state for modifier '{kind}'"
  | .unknownKind kind => s!"Unknown log modifier kind '{kind}'"

end ModifierError

inductive ScriptError where
  | parse (cause : ParseError)
  | missingInput (kind block slot : String)
  | missingField (kind block field : String)
  | invalidField (kind field reason : String)
  | typeMismatch (expected actual : String)
  | runtime (text : String)
  /-- Failure reported by the script itself. -/
  | failed (text : String)
  | aborted
  | timeout (milliseconds : Nat)
  | debugger (text : String)
  | site (text : String)
  | modifier (cause : ModifierError)
  deriving DecidableEq, Repr

namespace ScriptError

def message : ScriptError → String
  | .parse cause => "Parse error: " ++ cause.message
  | .missingInput kind block slot => s!"Block '{kind}' ({block}) has no input '{slot}'"
  | .missingField kind block field => s!"Block '{kind}' ({block}) has no field '{field}'"
  | .invalidField kind field reason => s!"Block '{kind}' has invalid field '{field}': {reason}"
  | .typeMismatch expected actual => s!"Type error: expected {expected}, got {actual}"
  | .runtime text => "Runtime error: " ++ text
  | .failed text => "Script failed: " ++ text
  | .aborted => "Script aborted"
  | .timeout milliseconds => "Script timed out after " ++ Time.durationText milliseconds
  | .debugger text => "Debugger error: " ++ text
  | .site text => "Site error: " ++ text
  | .modifier cause => "Log modifier error: " ++ cause.message

/-- The outcome under which a run that ends with this error is logged. -/
def outcome : ScriptError → Outcome
  | .aborted => .aborted
  | .failed _ => .failure
  | _ => .error

theorem outcome_isTerminal (e : ScriptError) : e.outcome.isTerminal = true := by
  cases e <;> rfl

end ScriptError

end BlockScript
