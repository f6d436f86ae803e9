import ConsLisp.Session
import ConsLisp.Text.Blank
import ConsLisp.Token.Outcomes

/-!
# The read-eval-print loop

Lines are collected until the parentheses and strings in them are closed, and then run.  The loop
reports the errors of the language and goes on; any other error ends it.
-/

namespace ConsLisp

/-- Whether tokens leave parentheses open, or end inside a string. -/
def leavesOpen (depth : Int) : List (Except LexicalError Token) → Bool
  | [] => 0 < depth
  | .ok .parenLeft :: rest => leavesOpen (depth + 1) rest
  | .ok .parenRight :: rest => leavesOpen (depth - 1) rest
  | .ok _ :: rest => leavesOpen depth rest
  | .error (.unterminatedString _) :: _ => true
  | .error _ :: _ => false

/-- Whether a text needs more lines before it can be run. -/
def needsMoreInput (text : String) : Bool :=
  leavesOpen 0 (Lexer.ofText text).outcomes

/-- What a user does at a prompt. -/
inductive Input where
  | line (text : String)
  /-- A line that cannot be encoded. -/
  | garbled (text : Text.Garbled)
  | interrupt

/-- What a user sees. -/
inductive Event where
  | prompt (text : String)
  | output (text : String)
  | report (text : String)

structure Repl where
  session : Session
  /-- The lines of an unfinished submission. -/
  pending : Option String := none

namespace Repl

def prompt (repl : Repl) : String :=
  if repl.pending.isSome then "  " else "* "

/-- How much of its submission comes before the next line. -/
def offset (repl : Repl) : Nat :=
  (repl.pending.map fun lines => lines.length + 1).getD 0

/-- A value as the loop prints it, or the report of an error of the language. -/
def answer (limit : Nat) (result : Except Error Value) : Except Error Event :=
  match result >>= Value.shown limit with
  | .ok text => .ok (.output (text ++ "\n"))
  | .error cause =>
      if cause.isReported then .ok (.report ("Error: " ++ cause.message ++ "\n")) else .error cause

/-- Runs a submission. -/
def submit (session : Session) (text : String) : List Event × Except Error Repl :=
  if (Text.strip text).isEmpty then ([], .ok { session })
  else
    let outcome := session.eval (.text text) true
    let written := Event.output outcome.output
    match answer session.limit outcome.result with
    | .ok event => ([written, event], .ok { session := outcome.session })
    | .error cause => ([written], .error cause)

/-- Takes one input. -/
def step (repl : Repl) : Input → List Event × Except Error Repl
  | .interrupt => ([.output "\n"], .ok { session := repl.session })
  | .line line =>
      match repl.session.bufferSize with
      | .error cause => ([], .error cause)
      | .ok _ =>
          let text := (repl.pending.map fun lines => lines ++ "\n" ++ line).getD line
          if needsMoreInput text then ([], .ok { repl with pending := some text })
          else submit repl.session text
  | .garbled line => ([], .error (.encoding (line.error repl.offset)))

/-- Everything up to the end of the inputs, and the error that ended the loop early, if any. -/
def run (repl : Repl) : List Input → List Event × Except Error Session
  | [] => ([.prompt repl.prompt, .output "\n"], .ok repl.session)
  | input :: inputs =>
      match repl.step input with
      | (events, .ok next) =>
          let (others, ending) := run next inputs
          (.prompt repl.prompt :: events ++ others, ending)
      | (events, .error cause) => (.prompt repl.prompt :: events, .error cause)

end Repl

end ConsLisp
