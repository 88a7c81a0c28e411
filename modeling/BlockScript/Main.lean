import BlockScript.Command
import Std.Time.DateTime.Timestamp
/-!
The command line.
-/

namespace BlockScript.Main

open Time (Timestamp)

def readFile? (file : String) : IO (Option String) := do
  try
    let text ← IO.FS.readFile file
    return some text
  catch _ => return none

/-- The contents of the files that can be read. -/
def readFiles : List String → IO (List (String × String))
  | [] => return []
  | file :: files => do
    let rest ← readFiles files
    match ← readFile? file with
    | some text => return (file, text) :: rest
    | none => return rest

def currentTime : IO Timestamp := do
  let nanos := (← Std.Time.Timestamp.now).toNanosecondsSinceUnixEpoch.val
  return { seconds := nanos / 1000000000, nanos := (nanos % 1000000000).toNat }

end BlockScript.Main

open BlockScript in
def main (arguments : List String) : IO UInt32 := do
  let names := ((Command.ofArguments? arguments).map Command.files).getD []
  let files ← Main.readFiles names
  let report := Command.execute (fun file => files.lookup file) (← Main.currentTime) arguments
  (← IO.getStdout).putStr report.output
  match report.complaint with
  | some text => (← IO.getStderr).putStrLn text
  | none => pure ()
  return report.exitCode.toUInt32
