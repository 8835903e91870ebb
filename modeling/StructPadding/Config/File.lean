import StructPadding.Config
import StructPadding.Directory
import StructPadding.Journal
import StructPadding.Text.Lower
import StructPadding.Text.Quoted

/-!
# Configuration files

A configuration is loaded from a file and saved to one. The name of the file has to say that it is
JSON, the only format there is.
-/

namespace StructPadding

/-- Why a configuration cannot be loaded or saved. -/
inductive ConfigError where
  | notFound (path : String)
  | file (error : FileError)
  /-- The file is not a text. -/
  | encoding
  | json (error : Json.DecodeError)
  | format (ending : String)
  | invalid (fault : ConfigFault)

namespace ConfigError

/-- What the system complained of. -/
def cause? : ConfigError → Option String
  | file error => some error.message
  | encoding => some "stream did not contain valid UTF-8"
  | _ => none

def message (e : ConfigError) : String :=
  match e with
  | notFound path => "Config file not found: " ++ Text.quoted path
  | file _ | encoding => "IO error: " ++ e.cause?.getD ""
  | json error => "Parse error: " ++ error.message
  | format ending => "Unsupported format: " ++ ending
  | invalid fault => "Validation error: " ++ fault.message

end ConfigError

namespace Config

/-- Checks that the name of a file says JSON. -/
def checkFormat (path : String) : Except ConfigError Unit :=
  let ending := Text.lower ((Path.extension? path).getD "")
  if ending = "json" then .ok () else .error (.format ending)

/-- The text of a file that is there. -/
def readText (look : Lookup) (path : String) : Except ConfigError (List UInt8) := do
  unless look.finds path do throw (.notFound path)
  let bytes ← (look.read path).mapError .file
  match Text.Utf8.decode bytes with
  | .ok _ => return bytes
  | .error _ => throw .encoding

/-- Reads and checks the configuration in a file. -/
def loadFrom (look : Lookup) (path : String) : Except ConfigError Config := do
  let bytes ← readText look path
  checkFormat path
  let config ← (Json.decodeText ofNode bytes).mapError .json
  config.check.mapError .invalid
  return config

/-- Reads and checks the configuration in a file, with a note when that went well. -/
def load (look : Lookup) (path : String) : Journal (Except ConfigError Config) := do
  let outcome := loadFrom look path
  match outcome with
  | .ok _ => .note .debug s!"loaded config from {path}"
  | .error _ => pure ()
  return outcome

/-- The configuration in a file, or the usual one if it cannot be loaded. -/
def loadOrDefault (look : Lookup) (path : String) : Journal Config := do
  match ← load look path with
  | .ok config => return config
  | .error _ => return {}

/-- Writes a configuration, which need not be a sound one, to a file, and says whether that went
well. The directories around the file are made first, and stay when it cannot be written. -/
def save (c : Config) (d : Directory) (path : String) : Except ConfigError Unit × Directory :=
  match checkFormat path with
  | .error e => (.error e, d)
  | .ok _ =>
    let text := Text.Utf8.encode c.toJson.pretty
    let (outcome, d) :=
      match d.ensureAll ((Path.parent? path).getD []).reverse with
      | (.ok (), around) => around.settle (around.write path text)
      | failed => failed
    (outcome.mapError .file, d)

end Config

end StructPadding
