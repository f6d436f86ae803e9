import ConsLisp.Shell.Directory
import ConsLisp.Shell.Options
import ConsLisp.Shell.Repl
import ConsLisp.Shell.Settings

/-!
# The command

Files to be loaded are run first, then those to be evaluated, in the order in which they are given;
the first error ends the program.  Without files to be evaluated the read-eval-print loop follows.
-/

namespace ConsLisp.Command

/-- How a command ends. -/
inductive Ending where
  | status (code : Nat)
  /-- An error that is none of the language ended it. -/
  | escaped (cause : Error)

/-- The session a command starts with. -/
def session (assignments : Settings.Assignments) : Except Error Session := do
  let limit ← Settings.usableDepth assignments defaultLimit
  return { limit, bufferSize := Settings.usableSize assignments }

/-- The path to be opened, if there is one that can be. -/
def checkPath : Option String → Except Error String
  | none => throw (.path .missing)
  | some path => if path.contains '\x00' then throw (.path .nullCharacter) else return path

def reportFile (path message : String) : Event :=
  .report ("Error in " ++ path ++ ": " ++ message ++ "\n")

/-- Runs one file, given what opening it gave. -/
def loadFile (session : Session) (path : String) :
    Except FileError (List UInt8) → List Event × Except Ending Session
  | .error error => ([reportFile path (error.message path)], .error (.status 1))
  | .ok content =>
      let outcome := session.load content
      let written := Event.output outcome.output
      match outcome.result with
      | .ok _ => ([written], .ok outcome.session)
      | .error cause =>
          if cause.isReported then ([written, reportFile path cause.message], .error (.status 1))
          else ([written], .error (.escaped cause))

/-- Runs files in order up to the first that fails. -/
def loadFiles (directory : Directory) (session : Session) :
    List (Option String) → List Event × Except Ending Session
  | [] => ([], .ok session)
  | given :: others =>
      match checkPath given with
      | .error cause => ([], .error (.escaped cause))
      | .ok path =>
          match loadFile session path (directory.openFile path) with
          | (events, .ok session) =>
              let (later, ending) := loadFiles directory session others
              (events ++ later, ending)
          | failed => failed

/-- Runs the loop until its inputs end. -/
def runRepl (session : Session) (inputs : List Input) : List Event × Ending :=
  match Repl.run { session } inputs with
  | (events, .ok _) => (events, .status 0)
  | (events, .error cause) => (events, .escaped cause)

/-- The lines of a text; what follows the last line end counts if it is not empty. -/
def lines (text : String) : List Input :=
  let pieces := text.splitOn "\n"
  let kept := if pieces.getLast? = some "" then pieces.dropLast else pieces
  kept.map .line

/-- All that a command does in a directory, with what is typed at it. -/
def run (options : Options) (assignments : Settings.Assignments) (directory : Directory)
    (inputs : List Input) : List Event × Ending :=
  match session assignments with
  | .error cause => ([], .escaped cause)
  | .ok session =>
      match loadFiles directory session (options.loads ++ options.batch) with
      | (events, .error ending) => (events, ending)
      | (events, .ok session) =>
          if options.batch.isEmpty then
            let (others, ending) := runRepl session inputs
            (events ++ others, ending)
          else (events, .status 0)

end ConsLisp.Command
