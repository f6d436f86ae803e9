import ConsLisp.Text.DecimalDigit

/-!
# Command-line options

A long option may be shortened as long as it stays unambiguous.  Any option may carry a value after
an equals sign, and a short one also directly behind its letter.  What is attached in either way to
a short option that takes no value is read as further letters.  There are no other arguments.
-/

namespace ConsLisp

namespace Options

inductive Switch where
  | help
  | load
  | batch
  | verbose
  deriving DecidableEq

def Switch.takesValue : Switch → Bool
  | .load | .batch => true
  | .help | .verbose => false

def spellings : List (String × Switch) :=
  [("-h", .help), ("--help", .help), ("-l", .load), ("--load", .load), ("-e", .batch),
    ("--eval", .batch), ("-v", .verbose), ("--verbose", .verbose)]

/-- Why the program ends before it starts. -/
inductive Exit where
  | help
  | usage
  deriving DecidableEq

def Exit.status : Exit → Nat
  | .help => 0
  | .usage => 2

/-- An option as it was given. -/
inductive Given where
  | alone (switch : Switch)
  /-- A long option with a text after an equals sign. -/
  | long (switch : Switch) (text : List Char)
  /-- A short option with a text after an equals sign or directly behind it. -/
  | short (switch : Switch) (text : List Char)

/-- What an argument looks like, before it is known what it belongs to. -/
inductive Argument where
  | word (text : String)
  /-- Two dashes, after which everything is a word. -/
  | separator
  | option (given : Given)
  | unknownOption

def isLong (text : List Char) : Bool :=
  ['-', '-'].isPrefixOf text

/-- Splits a text at its first equals sign. -/
def splitValue (text : List Char) : List Char × Option (List Char) :=
  match text.dropWhile (· ≠ '=') with
  | _ :: value => (text.takeWhile (· ≠ '='), some value)
  | [] => (text, none)

def Given.ofValue (switch : Switch) (name : List Char) : Option (List Char) → Given
  | some text => if isLong name then .long switch text else .short switch text
  | none => .alone switch

/-- The options an argument can mean that is none of the spellings: shortenings of a long option,
or a short option with something behind it. -/
def candidates (text : List Char) : List Given :=
  if isLong text then
    let (name, value) := splitValue text
    spellings.filterMap fun (spelling, switch) =>
      if name.isPrefixOf spelling.toList then some (Given.ofValue switch name value) else none
  else
    spellings.filterMap fun (spelling, switch) =>
      if spelling.toList = text.take 2 then some (.short switch (text.drop 2)) else none

def isDigit (char : Char) : Bool :=
  (Text.DecimalDigit.value? char).isSome

/-- Whether a text is a negative number, which is a word and not an option. -/
def isNegativeNumber (text : List Char) : Bool :=
  match text with
  | '-' :: rest =>
      let body := if rest.getLast? = some '\n' then rest.dropLast else rest
      match body.dropWhile isDigit with
      | [] => !body.isEmpty
      | '.' :: fraction => !fraction.isEmpty && fraction.all isDigit
      | _ => false
  | _ => false

/-- Looks at one argument; a shortening that fits several options is refused. -/
def classify (text : String) : Except Exit Argument :=
  let chars := text.toList
  if chars.head? ≠ some '-' || chars.length = 1 then return .word text
  else
    match spellings.lookup text with
    | some switch => return .option (.alone switch)
    | none =>
        let (name, value) := splitValue chars
        match value, spellings.lookup (String.ofList name) with
        | some _, some switch => return .option (Given.ofValue switch name value)
        | _, _ =>
            match candidates chars with
            | [given] => return .option given
            | _ :: _ :: _ => throw .usage
            | [] =>
                if isNegativeNumber chars || chars.contains ' ' then return .word text
                else return .unknownOption

def classifyAll : List String → Except Exit (List Argument)
  | [] => return []
  | "--" :: rest => return .separator :: rest.map .word
  | text :: rest => do return (← classify text) :: (← classifyAll rest)

/-- A switch with the value it takes, if any. -/
abbrev Action := Switch × String

/-- The actions of an option that stands alone, and the switch that needs the next argument as its
value, if there is one. -/
def aloneActions (switch : Switch) : List Action × Option Switch :=
  if switch.takesValue then ([], some switch) else ([(switch, "")], none)

/-- The actions of a short option with a text attached.  Without a value to take, the option passes
the text on to the one its first letter stands for. -/
def shortActions (switch : Switch) : List Char → Except Exit (List Action × Option Switch)
  | [] => if switch.takesValue then return ([(switch, "")], none) else throw .usage
  | letter :: rest =>
      if switch.takesValue then return ([(switch, String.ofList (letter :: rest))], none)
      else
        match spellings.lookup (String.ofList ['-', letter]) with
        | none => throw .usage
        | some next => do
            let (actions, waiting) ←
              if rest.isEmpty then pure (aloneActions next) else shortActions next rest
            return ((switch, "") :: actions, waiting)

def Given.actions : Given → Except Exit (List Action × Option Switch)
  | .alone switch => return aloneActions switch
  | .short switch text => shortActions switch text
  | .long switch text =>
      if switch.takesValue then return ([(switch, String.ofList text)], none) else throw .usage

end Options

/-- Paths are missing where an option was given only the separator for its value. -/
structure Options where
  loads : List (Option String) := []
  batch : List (Option String) := []
  verbosity : Nat := 0

namespace Options

/-- The path a value stands for; two dashes separate arguments and are none. -/
def pathOf (value : String) : Option String :=
  if value = "--" then none else some value

def perform (options : Options) : Action → Except Exit Options
  | (.help, _) => throw .help
  | (.load, value) => return { options with loads := options.loads ++ [pathOf value] }
  | (.batch, value) => return { options with batch := options.batch ++ [pathOf value] }
  | (.verbose, _) => return { options with verbosity := options.verbosity + 1 }

/-- Performs the options in order.  What belongs to no option is refused at the end. -/
def collect (options : Options) (recognised : Bool) : List Argument → Except Exit Options
  | [] => if recognised then return options else throw .usage
  | .option given :: rest => do
      let (actions, waiting) ← given.actions
      match waiting, rest with
      | none, rest => collect (← actions.foldlM perform options) recognised rest
      | some switch, .word value :: rest =>
          collect (← (actions ++ [(switch, value)]).foldlM perform options) recognised rest
      | some _, _ => throw .usage
  | _ :: rest => collect options false rest

def parse (arguments : List String) : Except Exit Options := do
  collect {} true (← classifyAll arguments)

end Options

end ConsLisp
