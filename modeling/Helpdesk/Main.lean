import Helpdesk.Cli.Run
import Std.Time.DateTime.Timestamp

/-! The program: it gathers what a command finds around it, runs the command, and shows how it ended.
Databases are in memory only. -/

namespace Helpdesk.Cli

def variableNames : List String := ["DESK_LOG", "DESK_CONFIG", "DESK_DB", "NO_COLOR", "COLOR"]

def readEnvironment : IO Environment := do
  let found ← variableNames.filterMapM fun name => do
    return (← IO.getEnv name).map fun value => (name, value)
  return ⟨Dict.ofList found⟩

def readFile (path : String) : IO Document.File := do
  try
    return ⟨path, some (← IO.FS.readBinFile path).toList⟩
  catch _ =>
    return ⟨path, none⟩

def readClock : IO Time.Instant := do
  let nanos := (← Std.Time.Timestamp.now).toNanosecondsSinceUnixEpoch.val
  return (Time.Instant.ofSeconds? (nanos / 1000000000) (nanos % 1000000000).toNat).getD .epoch

def surroundings (words : List String) : IO Surroundings := do
  let environment ← readEnvironment
  let files ← match Invocation.ofWords words with
    | .ok invocation => (invocation.paths environment).mapM readFile
    | .error _ => pure []
  return ⟨files, [], environment, ← readClock⟩

def faultText (fault : Fault) : String := fault.message?.getD fault.kind.name

def conclude (ending : Ending) : IO UInt32 := do
  match ending with
  | .done output => (← IO.getStdout).putStr output; return 0
  | .help => (← IO.getStdout).putStr usage; return 0
  | .misuse => (← IO.getStderr).putStr usage; return 2
  | .failed fault => IO.eprintln ("error: " ++ faultText fault); return 1

end Helpdesk.Cli

def main (words : List String) : IO UInt32 := do
  Helpdesk.Cli.conclude (Helpdesk.Cli.run words (← Helpdesk.Cli.surroundings words))
