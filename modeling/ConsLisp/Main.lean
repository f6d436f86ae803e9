import ConsLisp.Shell.Command

/-!
# The program

Connects the command to the files, the settings and the terminal of the machine it runs on.
-/

namespace ConsLisp.Terminal

/-- The names of all settings. -/
def settingNames : List String :=
  ["KONS_READ_BUFFER_SIZE", "KONS_RECURSION_LIMIT", "KONS_LOG"]

def readAssignments : IO Settings.Assignments :=
  settingNames.filterMapM fun name => do
    return (← IO.getEnv name).map fun text => (name, text)

def fileError : IO.Error → FileError
  | .noFileOrDirectory .. => .notFound
  | .inappropriateType .. => .isADirectory
  | _ => .notFound

def readFile (path : String) : IO (Except FileError (List UInt8)) := do
  try
    return .ok (← IO.FS.readBinFile path).toList
  catch error => return .error (fileError error)

def showEvent : Event → IO Unit
  | .prompt text | .output text => do
      IO.print text
      (← IO.getStdout).flush
  | .report text => IO.eprint text

/-- Reports how the command ended. -/
def finish : Command.Ending → IO UInt32
  | .status code => return UInt32.ofNat code
  | .escaped cause => do
      IO.eprintln cause.message
      return 1

def loadPaths (session : Session) : List (Option String) → IO (Except Command.Ending Session)
  | [] => return .ok session
  | given :: others => do
      match Command.checkPath given with
      | .error cause => return .error (.escaped cause)
      | .ok path =>
          let (events, result) := Command.loadFile session path (← readFile path)
          events.forM showEvent
          match result with
          | .ok session => loadPaths session others
          | .error ending => return .error ending

/-- A line without its end, or nothing when there are no more lines. -/
def readLine : IO (Option String) := do
  let line ← (← IO.getStdin).getLine
  if line.isEmpty then return none
  else return some (if line.endsWith "\n" then (line.dropEnd 1).toString else line)

partial def interact (repl : Repl) : IO Command.Ending := do
  showEvent (.prompt repl.prompt)
  match ← readLine with
  | none =>
      showEvent (.output "\n")
      return .status 0
  | some line =>
      let (events, result) := repl.step (.line line)
      events.forM showEvent
      match result with
      | .ok next => interact next
      | .error cause => return .escaped cause

def runCommand (options : Options) : IO Command.Ending := do
  match Command.session (← readAssignments) with
  | .error cause => return .escaped cause
  | .ok session =>
      match ← loadPaths session (options.loads ++ options.batch) with
      | .error ending => return ending
      | .ok session =>
          if options.batch.isEmpty then interact { session } else return .status 0

def run (arguments : List String) : IO UInt32 := do
  match Options.parse arguments with
  | .ok options => finish (← runCommand options)
  | .error exit =>
      IO.eprintln "usage: kons [-h] [-l FILE] [-e FILE] [-v]"
      return UInt32.ofNat exit.status

end ConsLisp.Terminal

def main (arguments : List String) : IO UInt32 :=
  ConsLisp.Terminal.run arguments
