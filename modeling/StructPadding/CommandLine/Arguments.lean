/-!
# Arguments

The command line has options that stand anywhere and a command with options and a file of its own. A
value may be part of its argument or be the next one. What an argument stands for is settled when
the next one is understood, so of two faults the one that comes to light first is reported.
-/

namespace StructPadding.CommandLine

/-- What keeps a command line from being carried out. -/
inductive UsageError where
  | helpWanted
  | versionWanted
  /-- There is not a single argument. -/
  | nothingGiven
  | commandMissing
  | commandUnknown
  | argumentUnknown
  | argumentMissing
  /-- An option without a value, or a path without a character. -/
  | valueMissing
  /-- A word size that is not a number. -/
  | valueMalformed
  | valueUnwanted
  /-- An argument that is given twice. -/
  | repeated
deriving DecidableEq

/-- What an argument can be about. -/
inductive Key where
  | config
  | logLevel
  | wordSize
  | noColor
  | json
  | help
  | version
  | file
  | hex
  | noPadding
  | base
  | head
  | path
deriving DecidableEq

namespace Key

/-- The name after two dashes. A file has none. -/
def long? : Key → Option String
  | config => some "config"
  | logLevel => some "log-level"
  | wordSize => some "word-size"
  | noColor => some "no-color"
  | json => some "json"
  | help => some "help"
  | version => some "version"
  | file => none
  | hex => some "hex"
  | noPadding => some "no-padding"
  | base => some "base"
  | head => some "head"
  | path => some "path"

/-- The letter after one dash. -/
def short? : Key → Option Char
  | config => some 'c'
  | logLevel => some 'l'
  | help => some 'h'
  | version => some 'V'
  | base => some 'b'
  | path => some 'p'
  | _ => none

def takesValue : Key → Bool
  | config | logLevel | wordSize | file | base | head | path => true
  | _ => false

end Key

/-- The commands by name. -/
inductive Verb where
  | layout
  | optimize
  | review
deriving DecidableEq

namespace Verb

def ofName? (name : String) : Option Verb :=
  match name with
  | "layout" => some layout
  | "optimize" => some optimize
  | "review" => some review
  | _ => none

/-- What only this command can be given. -/
def ownKeys : Verb → List Key
  | layout => [.file, .hex, .noPadding]
  | optimize => [.file]
  | review => [.base, .head, .path]

/-- What this command cannot do without. -/
def requiredKey : Verb → Key
  | layout | optimize => .file
  | review => .head

end Verb

/-- The part of a command line that an argument stands in: after the name of a command, or before.
-/
abbrev Scope :=
  Option Verb

namespace Scope

/-- What can be given in a scope. -/
def keys : Scope → List Key
  | none => [.config, .logLevel, .wordSize, .noColor, .json, .help, .version]
  | some verb => verb.ownKeys ++ [.config, .logLevel, .wordSize, .noColor, .json, .help]

def ofLong? (s : Scope) (name : String) : Option Key :=
  s.keys.find? fun k => k.long? == some name

def ofShort? (s : Scope) (letter : Char) : Option Key :=
  s.keys.find? fun k => k.short? == some letter

/-- Whether a name is that of a command here; `help` is one. -/
def isCommand (s : Scope) (name : String) : Bool :=
  s.isNone && (name == "help" || (Verb.ofName? name).isSome)

end Scope

/-- An argument by its form. -/
inductive Argument where
  /-- Two dashes, after which every argument is plain. -/
  | separator
  | long (name : String) (value : Option String)
  | short (letters : List Char)
  | plain (text : String)

/-- The form of an argument. A dash alone is plain. -/
def Argument.ofText (text : String) : Argument :=
  match text.toList with
  | ['-', '-'] => separator
  | '-' :: '-' :: rest =>
    let name := rest.takeWhile (· ≠ '=')
    let value :=
      match rest.drop name.length with
      | [] => none
      | _ :: value => some (String.ofList value)
    long (String.ofList name) value
  | '-' :: letter :: letters => short (letter :: letters)
  | _ => plain text

/-- A number of 64 bits in decimal, with a plus sign or without. -/
def readWord? (text : String) : Option UInt64 :=
  let digits :=
    match text.toList with
    | '+' :: rest => rest
    | cs => cs
  let value := digits.foldl (fun n c => 10 * n + (c.toNat - '0'.toNat)) 0
  if digits.isEmpty || !digits.all Char.isDigit || UInt64.size ≤ value then none
  else some (UInt64.ofNat value)

/-- What is settled, each key with its value. A key without a value has the empty text. -/
abbrev Settings :=
  List (Key × String)

namespace Settings

/-- Checks the value of a key. -/
def checkValue (key : Key) (value : String) : Except UsageError Unit :=
  match key with
  | .config | .file | .base | .head | .path =>
    if value = "" then .error .valueMissing else .ok ()
  | .wordSize => if (readWord? value).isSome then .ok () else .error .valueMalformed
  | _ => .ok ()

/-- Settles a key that was not settled before. -/
def settle (s : Settings) (key : Key) (value : String) : Except UsageError Settings := do
  if (s.lookup key).isSome then throw .repeated
  checkValue key value
  return (key, value) :: s

end Settings

/-- How far the arguments of a scope are understood. -/
structure Progress where
  settled : Settings := []
  /-- The last key with a value, and the value unless it is still to come. -/
  pending : Option (Key × Option String) := none
  /-- Whether two dashes were seen. -/
  plainOnly : Bool := false

namespace Progress

/-- Whether the next argument can only be a value or another option. -/
def awaitsValue (p : Progress) : Bool :=
  match p.pending with
  | some (_, none) => true
  | _ => false

/-- Whether a key was given. -/
def has (p : Progress) (key : Key) : Bool :=
  (p.settled.lookup key).isSome || p.pending.any fun (k, _) => k == key

/-- Settles the key that is pending. -/
def resolve (p : Progress) : Except UsageError Progress :=
  match p.pending with
  | none => .ok p
  | some (_, none) => .error .valueMissing
  | some (key, some value) => do
    let settled ← p.settled.settle key value
    return { p with settled, pending := none }

/-- Takes an option with a value: one that is part of the argument is settled at once. -/
def option (p : Progress) (key : Key) (value : Option String) : Except UsageError Progress := do
  let p ← p.resolve
  match value with
  | some v =>
    let settled ← p.settled.settle key v
    return { p with settled }
  | none => return { p with pending := some (key, none) }

/-- Takes an option without a value. -/
def flag (p : Progress) (key : Key) : Except UsageError Progress := do
  let p ← p.resolve
  match key with
  | .help => throw .helpWanted
  | .version => throw .versionWanted
  | _ =>
    let settled ← p.settled.settle key ""
    return { p with settled }

/-- Takes an option by its name. -/
def long (scope : Scope) (p : Progress) (name : String) (value : Option String) :
    Except UsageError Progress :=
  match scope.ofLong? name with
  | none => .error .argumentUnknown
  | some key =>
    if key.takesValue then p.option key value
    else if value.isSome then .error .valueUnwanted
    else p.flag key

/-- Takes options by their letters. What follows the letter of an option with a value is that value,
and an equals sign in front of it is left out. -/
def short (scope : Scope) (p : Progress) : List Char → Except UsageError Progress
  | [] => .ok p
  | letter :: letters =>
    match scope.ofShort? letter with
    | none => .error .argumentUnknown
    | some key =>
      if key.takesValue then
        match letters with
        | [] => p.option key none
        | '=' :: value => p.option key (some (String.ofList value))
        | value => p.option key (some (String.ofList value))
      else do
        let p ← p.flag key
        short scope p letters

/-- Takes an argument that is no option: the file, if the scope has one and it was not given. -/
def positional (scope : Scope) (p : Progress) (text : String) : Except UsageError Progress :=
  if scope.keys.contains .file && !p.has .file then do
    let p ← p.resolve
    return { p with pending := some (.file, some text) }
  else if scope.isNone && !(p.plainOnly && scope.isCommand text) then .error .commandUnknown
  else .error .argumentUnknown

/-- Takes an argument that is no command. -/
def take (scope : Scope) (p : Progress) (text : String) : Except UsageError Progress :=
  if p.plainOnly then p.positional scope text
  else
    match Argument.ofText text, p.pending with
    | .separator, _ => .ok { p with plainOnly := true }
    | .long name value, _ => p.long scope name value
    | .short letters, _ => p.short scope letters
    | .plain text, some (key, none) => .ok { p with pending := some (key, some text) }
    | .plain text, _ => p.positional scope text

end Progress

/-- Takes arguments up to a command, which comes with the arguments after it. -/
def scan (scope : Scope) : Progress → List String →
    Except UsageError (Progress × Option (String × List String))
  | p, [] => .ok (p, none)
  | p, text :: rest =>
    if !p.plainOnly && !p.awaitsValue && scope.isCommand text then .ok (p, some (text, rest))
    else do
      let p ← p.take scope text
      scan scope p rest

/-- The outcome of the command `help`: it can name one other command. -/
def helpOutcome : List String → UsageError
  | [] => .helpWanted
  | [name] => if Scope.isCommand none name then .helpWanted else .commandUnknown
  | _ => .commandUnknown

/-- What to do, and with what. -/
inductive Command where
  | layout (file : String) (hex noPadding : Bool)
  | optimize (file : String)
  | review (base : Option String) (head : String) (path : Option String)
deriving DecidableEq

/-- A command line that can be carried out. -/
structure Invocation where
  config : Option String
  logLevel : String
  wordSize : Option UInt64
  noColor : Bool
  json : Bool
  command : Command
deriving DecidableEq

/-- The command with its own settings. -/
def Command.ofSettings (verb : Verb) (s : Settings) : Except UsageError Command :=
  match s.lookup verb.requiredKey with
  | none => .error .argumentMissing
  | some value =>
    match verb with
    | .layout =>
      .ok (.layout value (s.lookup .hex).isSome (s.lookup .noPadding).isSome)
    | .optimize => .ok (.optimize value)
    | .review => .ok (.review (s.lookup .base) value (s.lookup .path))

/-- The invocation that a command and settings make; of two settings of a key the first counts. -/
def Invocation.ofSettings (command : Command) (s : Settings) : Invocation where
  config := s.lookup .config
  logLevel := (s.lookup .logLevel).getD "warn"
  wordSize := (s.lookup .wordSize).bind readWord?
  noColor := (s.lookup .noColor).isSome
  json := (s.lookup .json).isSome
  command

/-- Reads the arguments of a command. -/
def parseCommand (verb : Verb) (args : List String) : Except UsageError (Command × Settings) := do
  let (p, _) ← scan (some verb) {} args
  let p ← p.resolve
  let command ← Command.ofSettings verb p.settled
  return (command, p.settled)

/-- Reads a command line. Options that stand after the command win over those before it. -/
def parse (args : List String) : Except UsageError Invocation := do
  let (outer, rest) ← scan none {} args
  match rest with
  | some (name, args) =>
    match Verb.ofName? name with
    | none => throw (helpOutcome args)
    | some verb =>
      let (command, inner) ← parseCommand verb args
      let outer ← outer.resolve
      return .ofSettings command (inner ++ outer.settled)
  | none =>
    let outer ← outer.resolve
    throw (if outer.settled.isEmpty then .nothingGiven else .commandMissing)

/-- The paths that an invocation names. -/
def Invocation.paths (i : Invocation) : List String :=
  i.config.toList ++
    match i.command with
    | .layout file .. => [file]
    | .optimize file => [file]
    | .review base head _ => base.toList ++ [head]

/-- The path that a review reports. -/
def reportedPath (head : String) (path : Option String) : String :=
  path.getD head

end StructPadding.CommandLine
