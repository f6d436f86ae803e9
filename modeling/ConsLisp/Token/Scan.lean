/-!
# Scanning one lexeme

A lexeme is found by taking symbols one at a time.  What a symbol does depends only on its role,
so the same rules scan bytes and characters.  The rules, in the order in which they apply:

* inside a comment everything is skipped up to the end of the line, which also ends a word;
* the symbol after a backslash is taken as it is, and makes the word an escaped one;
* inside a string everything is taken; the closing quote ends the lexeme;
* a semicolon starts a comment and a double quote a string;
* parentheses and the tick stand alone when nothing is pending;
* a parenthesis ends a pending word and is left for the next lexeme;
* a blank ends a pending word and is skipped otherwise.
-/

namespace ConsLisp

/-- What a symbol of the source can do. -/
inductive Role where
  | parenLeft
  | parenRight
  | tick
  | doubleQuote
  | backslash
  | semicolon
  | newline
  | blank
  | ordinary
  deriving DecidableEq

/-- The role of the character with a given code. -/
def Role.ofCode (code : Nat) : Role :=
  if code = 0x28 then .parenLeft
  else if code = 0x29 then .parenRight
  else if code = 0x27 then .tick
  else if code = 0x22 then .doubleQuote
  else if code = 0x5C then .backslash
  else if code = 0x3B then .semicolon
  else if code = 0x0A then .newline
  else if code = 0x20 || code = 0x09 || code = 0x0D then .blank
  else .ordinary

def Role.ofByte (byte : UInt8) : Role :=
  .ofCode byte.toNat

def Role.ofChar (char : Char) : Role :=
  .ofCode char.toNat

/-- A piece of the source before its symbols are given a meaning. -/
inductive Lexeme (α : Type) where
  | parenLeft
  | parenRight
  | tick
  /-- The inside of a string that is a token of its own. -/
  | string (content : List α)
  /-- A word with at least one escaped symbol. -/
  | escapedWord (word : List α)
  | word (word : List α)

namespace Scan

/-- Where a scan stands in the source. -/
inductive Mode where
  | code
  | comment
  /-- Inside a string, which is a token of its own if nothing was pending when it began. -/
  | string (alone : Bool)
  deriving DecidableEq

end Scan

/-- A scan in progress.  The pending symbols are kept in reverse. -/
structure Scan (α : Type) where
  mode : Scan.Mode := .code
  pending : List α := []
  /-- The next symbol is taken as it is. -/
  escaping : Bool := false
  /-- Some symbol was taken as it is. -/
  escaped : Bool := false

namespace Scan

variable {α : Type}

/-- What the next symbol does to a scan. -/
inductive Step (α : Type) where
  | more (scan : Scan α)
  /-- The lexeme is complete and the symbol used up. -/
  | take (lexeme : Lexeme α)
  /-- The lexeme is complete and the symbol belongs to the next one. -/
  | leave (lexeme : Lexeme α)

def start : Scan α := {}

def push (scan : Scan α) (symbol : α) : Scan α :=
  { scan with pending := symbol :: scan.pending }

/-- The word pending when a scan ends outside a string. -/
def pendingWord (scan : Scan α) : Lexeme α :=
  let word := scan.pending.reverse
  if scan.escaped then .escapedWord word else .word word

/-- The lexeme of a scan whose string has just been closed. -/
def closed (scan : Scan α) (alone : Bool) : Lexeme α :=
  if alone then .string (scan.pending.reverse.drop 1).dropLast else scan.pendingWord

/-- A symbol outside strings and comments that is not escaped. -/
def stepCode (scan : Scan α) (role : Role) (symbol : α) : Step α :=
  match role with
  | .semicolon => .more { scan with mode := .comment }
  | .doubleQuote => .more { scan.push symbol with mode := .string scan.pending.isEmpty }
  | .parenLeft => if scan.pending.isEmpty then .take .parenLeft else .leave scan.pendingWord
  | .parenRight => if scan.pending.isEmpty then .take .parenRight else .leave scan.pendingWord
  | .tick => if scan.pending.isEmpty then .take .tick else .more (scan.push symbol)
  | .newline | .blank =>
      if scan.pending.isEmpty then .more scan else .take scan.pendingWord
  | .backslash | .ordinary => .more (scan.push symbol)

def step (scan : Scan α) (role : Role) (symbol : α) : Step α :=
  match scan.mode with
  | .comment =>
      if role = .newline then
        if scan.pending.isEmpty then .more { scan with mode := .code } else .take scan.pendingWord
      else .more scan
  | .code =>
      if scan.escaping then .more { scan.push symbol with escaping := false }
      else if role = .backslash then .more { scan with escaping := true, escaped := true }
      else scan.stepCode role symbol
  | .string alone =>
      if scan.escaping then .more { scan.push symbol with escaping := false }
      else if role = .backslash then .more { scan with escaping := true, escaped := true }
      else if role = .doubleQuote then .take ((scan.push symbol).closed alone)
      else .more (scan.push symbol)

/-- How far a scan comes on the symbols at hand. -/
inductive Progress (α : Type) where
  | unfinished (scan : Scan α)
  | found (lexeme : Lexeme α) (rest : List α)

/-- Takes symbols until the lexeme is complete or none are left. -/
def run (role : α → Role) : Scan α → List α → Progress α
  | scan, [] => .unfinished scan
  | scan, symbol :: rest =>
      match scan.step (role symbol) symbol with
      | .more next => run role next rest
      | .take lexeme => .found lexeme rest
      | .leave lexeme => .found lexeme (symbol :: rest)

/-- What a scan amounts to when the source has ended. -/
inductive Ending (α : Type) where
  | nothing
  | lexeme (lexeme : Lexeme α)
  /-- The source ended inside a string; what was pending includes its opening quote. -/
  | unterminated (pending : List α)

def ending (scan : Scan α) : Ending α :=
  match scan.mode with
  | .string _ => .unterminated scan.pending.reverse
  | .code | .comment =>
      if scan.pending.isEmpty then .nothing else .lexeme scan.pendingWord

end Scan

end ConsLisp
