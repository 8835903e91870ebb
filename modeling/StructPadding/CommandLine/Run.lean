import StructPadding.CommandLine.Arguments
import StructPadding.CommandLine.Report
import StructPadding.Config.File

/-!
# Running a command

A command reads its configuration and its files and makes a report, or fails before it has printed
anything.
-/

namespace StructPadding

/-- The error that an extraction error comes from, where it has one. -/
def ExtractError.cause? : ExtractError → Option String
  | layout error => some error.message
  | manifest error => some error.message
  | _ => none

namespace CommandLine

/-- Why a command fails. -/
inductive Failure where
  | config (path : String) (error : ConfigError)
  | invalid (fault : ConfigFault)
  | unreadable (path : String) (error : FileError)
  | extraction (path : String) (error : ExtractError)
  | baseMissing (path : String)
  | headMissing (path : String)
  | breakdown (cause : Review.Breakdown)

namespace Failure

/-- What to tell, from the outermost reason to the innermost. -/
def reasons : Failure → List String
  | config path error => s!"loading config {path}" :: error.message :: error.cause?.toList
  | invalid fault => [(ConfigError.invalid fault).message]
  | unreadable path error => [s!"reading {path}", error.message]
  | extraction path error => error.message path :: error.cause?.toList
  | baseMissing path => ["Base file does not exist: " ++ Text.quoted path]
  | headMissing path => ["Head file does not exist: " ++ Text.quoted path]
  | breakdown cause => [cause.message]

def message (f : Failure) : String :=
  ": ".intercalate f.reasons

end Failure

/-- A step of a command: it takes notes and may fail. -/
abbrev Step (α : Type) :=
  ExceptT Failure Journal α

/-- A step that takes no notes. -/
def Step.ofExcept {ε α : Type} (failure : ε → Failure) (e : Except ε α) : Step α :=
  ExceptT.mk (pure (e.mapError failure))

/-- A step whose error becomes a failure. -/
def Step.ofJournal {ε α : Type} (failure : ε → Failure) (j : Journal (Except ε α)) : Step α :=
  ExceptT.mk do
    let outcome ← j
    return outcome.mapError failure

/-- The configuration of an invocation. A word size on the command line wins over the file. -/
def configure (look : Lookup) (i : Invocation) : Step Config := do
  let config ←
    match i.config with
    | some path => Step.ofJournal (.config path) (Config.load look path)
    | none => pure {}
  let config := { config with wordSize := i.wordSize.getD config.wordSize }
  Step.ofExcept .invalid config.check
  return config

/-- The bytes of a file. -/
def readFile (look : Lookup) (path : String) : Step (List UInt8) :=
  Step.ofExcept (.unreadable path) (look.read path)

/-- The layouts of the structs in a file. -/
def layoutsIn (look : Lookup) (config : Config) (path : String) : Step (List Layout) := do
  let source ← readFile look path
  Step.ofJournal (.extraction path) (extract config.target config.recordRule path source)

/-- The comments on the change of one file. -/
def reviewFile (look : Lookup) (config : Config) (base : Option String) (head path : String) :
    Step (List Review.Comment) := do
  if let some base := base then
    unless look.finds base do throw (.baseMissing base)
  unless look.finds head do throw (.headMissing head)
  let before ← base.mapM (readFile look)
  let after ← readFile look head
  Step.ofJournal .breakdown (Review.review config [⟨path, before, some after⟩])

/-- The report of a command. -/
def perform (look : Lookup) (config : Config) (r : Report) : Command → Step String
  | .layout file hex noPadding => do
    let ls ← layoutsIn look config file
    return r.layouts ⟨hex, !noPadding⟩ ls
  | .optimize file => do
    let ls ← layoutsIn look config file
    let advice ← Step.ofJournal (fun e => .breakdown (.column e))
      (Review.consultAll config.recordRule true (ls.map fun l => ⟨l, none⟩))
    return r.suggestions advice
  | .review base head path => do
    let comments ← reviewFile look config base head (reportedPath head path)
    return r.comments comments

/-- Runs an invocation on a terminal that shows colours or does not. -/
def run (look : Lookup) (colours : Bool) (i : Invocation) : Journal (Except Failure String) :=
  ExceptT.run do
    let config ← configure look i
    perform look config ⟨i.json, colours && !i.noColor⟩ i.command

end CommandLine

end StructPadding
