import BlockScript.Command.Words
import BlockScript.Kinds
import BlockScript.Log.Codec
import BlockScript.Script
/-!
The commands a user can give: running a script file, checking one, and listing the kinds.
-/

namespace BlockScript

open Time (Timestamp)

structure RunRequest where
  file : String
  presets : List (String × Value)
  /-- The file that holds a configuration. -/
  config : Option String
  name : Option String
  timeout : Option Nat
  user : Option String

inductive Command where
  | run (request : RunRequest)
  | check (file : String)
  | kinds
  | version

namespace Command

def file? (s : String) : Option String :=
  if s = "" then none else some s

def timeout? (s : String) : Option Nat :=
  Decimal.count? s.toList

/-- A preset `NAME=JSON`. What is not JSON is taken as a string. -/
def preset? (s : String) : Option (String × Value) :=
  match splitAssignment s.toList with
  | (_, none) => none
  | (name, some value) =>
    let text := String.ofList value
    some (String.ofList name, (Json.ofText? text).elim (.string text) Value.ofJson)

/-- Reads the value of an option, if it is given. -/
def optional? {α : Type} (read : String → Option α) : Option String → Option (Option α)
  | none => some none
  | some s => (read s).map some

def runRequest? (w : Words) : Option RunRequest :=
  match w.plain with
  | [file] => do
    some { file := ← file? file
           presets := ← (w.values "preset").mapM preset?
           config := ← optional? file? (← w.single? "config")
           name := ← w.single? "name"
           timeout := ← optional? timeout? (← w.single? "timeout-ms")
           user := ← w.single? "user" }
  | _ => none

/-- The command a command line gives. -/
def ofArguments? : List String → Option Command
  | "run" :: words =>
    ((Words.ofList? ["preset", "config", "name", "timeout-ms", "user"] words).bind
      runRequest?).map run
  | "check" :: words => do
    match (← Words.ofList? [] words).plain with
    | [file] => some (.check (← file? file))
    | _ => none
  | "kinds" :: words => do
    match (← Words.ofList? [] words).plain with
    | [] => some .kinds
    | _ => none
  | "--version" :: _ => some .version
  | word :: _ => if ['-', 'V'].isPrefixOf word.toList then some .version else none
  | [] => none

/-- The files a command reads. -/
def files : Command → List String
  | run request => request.file :: request.config.toList
  | check file => [file]
  | kinds | version => []

/-- Why a command cannot be carried out. What the file system or the JSON reader says about it would
follow the message, and is left out. -/
inductive Failure where
  | reading (file : String)
  | parsing (file : String)
  | script (error : ParseError)
  /-- The script waits for something that never happens. -/
  | waiting (file : String)
  deriving DecidableEq, Repr

def Failure.message : Failure → String
  | .reading file => s!"reading {file}"
  | .parsing file => s!"parsing {file}"
  | .script e => e.message
  | .waiting file => s!"waiting in {file}"

/-- What a command writes, and the code it exits with. -/
structure Report where
  exitCode : Nat
  output : String := ""
  complaint : Option String := none
  deriving DecidableEq, Repr

namespace Report

def usage : String :=
  "Usage: run FILE [-p NAME=JSON]... [--config FILE] [--name NAME] [--timeout-ms MS] [--user USER]
       check FILE
       kinds"

/-- The report on a command line that gives no command. -/
def rejection : Report :=
  { exitCode := 2, complaint := some usage }

def ofFailure (failure : Failure) : Report :=
  { exitCode := 1, complaint := some ("Error: " ++ failure.message) }

def ofLines (lines : List String) : Report :=
  { exitCode := 0, output := String.join (lines.map (· ++ "\n")) }

/-- The report on a crash, which takes everything else with it. The words in which it is announced
are not those of a command. -/
def crash : Report :=
  { exitCode := 101 }

/-- The log of a run, which alone tells how the run went. -/
def ofRun (r : Run) : Report :=
  { exitCode := if r.outcome = .success then 0 else 1, output := r.log.pretty ++ "\n" }

end Report

/-- The last part of a path, up to the last dot in it unless that comes first. A path that ends in
`..` has none. -/
def fileStem? (path : String) : Option String :=
  let parts := ((path.toList.splitOnP (· == '/')).filter fun p => p ≠ [] ∧ p ≠ ['.'])
  match parts.getLast? with
  | none | some ['.', '.'] => none
  | some name =>
    match (name.reverse.dropWhile (· ≠ '.')).drop 1 with
    | [] => some (String.ofList name)
    | stem => some (String.ofList stem.reverse)

section

-- What each file holds, for the files that can be read.
variable (read : String → Option String)

def contents (file : String) : Except Failure String :=
  match read file with
  | some text => .ok text
  | none => .error (.reading file)

def configuration : Option String → Except Failure Config
  | none => .ok {}
  | some file => do
    let text ← contents read file
    match Config.ofText? text with
    | some config => .ok config
    | none => .error (.parsing file)

def script (settings : Settings) (text : String) : Except Failure (Script Stock) :=
  match Script.parse Registry.standard settings text with
  | .ok s => .ok s
  | .error e => .error (.script e)

/-- A site that knows no service, without debugger or signal. -/
def surroundings (presets : Bindings) : Environment Stock Unit where
  site := Site.fixed presets []
  debugger := none
  aborted _ := false
  abort s := s
  react s := s

/-- What the command line says goes before the configuration, and the name of the file stands in
for a name that neither gives. -/
def settings (request : RunRequest) (config : Config) : Settings where
  name := (request.name.or config.scriptName).or (fileStem? request.file)
  id := config.scriptId
  timeout := request.timeout.or config.timeout
  user := request.user

def runFile (now : Timestamp) (request : RunRequest) : Except Failure Report := do
  let text ← contents read request.file
  let config ← configuration read request.config
  let s ← script (settings request config) text
  let env := surroundings (Entries.ofList request.presets)
  let w : World Unit := { peers := (), origin := now }
  match s.run env w with
  | some (r, _) => .ok (.ofRun r)
  | none => if s.crashes env w then .ok .crash else .error (.waiting request.file)

def checkFile (file : String) : Except Failure Report := do
  let text ← contents read file
  let s ← script {} text
  let kind := s.root.kind
  let length := s.root.chainLength
  .ok (.ofLines
    [s!"✓ {file} parsed: root '{kind}', {length} statement(s) in the top-level chain"])

def perform (now : Timestamp) : Command → Except Failure Report
  | run request => runFile read now request
  | check file => checkFile read file
  | kinds => .ok (.ofLines Registry.standard.kinds)
  | version => .ok (.ofLines ["blockflow 0.1.0"])

/-- Carries out a command line. -/
def execute (now : Timestamp) (arguments : List String) : Report :=
  match ofArguments? arguments with
  | none => .rejection
  | some command =>
    match perform read now command with
    | .ok report => report
    | .error failure => .ofFailure failure

end

end Command

end BlockScript
