import ConsLisp.Error
import ConsLisp.Number.Written
import ConsLisp.Text.Uppercase
import ConsLisp.Token.Source

/-!
# Settings

Settings are texts assigned to names where the program is started.  A number that is not assigned,
blank, or not positive has no effect.
-/

namespace ConsLisp.Settings

/-- Names and the texts assigned to them. -/
abbrev Assignments := List (String × String)

/-- A positive number assigned to a name, or a fallback. -/
def integer (assignments : Assignments) (name : String) (fallback : Option Int) :
    Except Error (Option Int) :=
  match assignments.lookup name with
  | none => return fallback
  | some text =>
      if (Text.strip text).isEmpty then return fallback
      else
        match Number.written? text with
        | none => throw (.setting (.notAnInteger name text))
        | some value => return if 0 < value then some value else fallback

/-- How much of a source is read at once. -/
def readBufferSize (assignments : Assignments) : Except Error Nat := do
  let size ← integer assignments "KONS_READ_BUFFER_SIZE" (some Source.defaultBufferSize)
  return (size.getD Source.defaultBufferSize).toNat

/-- The limit on nesting, if one is set. -/
def recursionLimit (assignments : Assignments) : Except Error (Option Nat) := do
  let limit ← integer assignments "KONS_RECURSION_LIMIT" none
  return limit.map Int.toNat

/-- The largest nesting a limit can allow. -/
def greatestDepth : Nat := Nat.pow 2 31 - 1

/-- The largest amount that can be asked for in one read. -/
def greatestSize : Nat := Nat.pow 2 63 - 1

/-- The limit on nesting that evaluation works with. -/
def usableDepth (assignments : Assignments) (fallback : Nat) : Except Error Nat := do
  let limit := (← recursionLimit assignments).getD fallback
  if limit ≤ greatestDepth then return limit else throw (.setting .depthTooLarge)

/-- The size of the reads that sources are asked for. -/
def usableSize (assignments : Assignments) : Except Error Nat := do
  let size ← readBufferSize assignments
  if size ≤ greatestSize then return size else throw (.setting .sizeTooLarge)

/-- The levels of logging by name. -/
def logLevels : List (String × Nat) :=
  [("CRITICAL", 50), ("FATAL", 50), ("ERROR", 40), ("WARNING", 30), ("WARN", 30), ("INFO", 20),
    ("DEBUG", 10), ("NOTSET", 0)]

/-- The level of logging that was asked for by name, or else by repeating an option. -/
def logLevel (assignments : Assignments) (verbosity : Int) : Nat :=
  let named := (assignments.lookup "KONS_LOG").bind fun text =>
    logLevels.lookup (Text.fold (Text.strip text))
  named.getD (if verbosity ≤ 0 then 30 else if verbosity = 1 then 20 else 10)

end ConsLisp.Settings
