import StructPadding.Go.Shape
import StructPadding.Journal
import StructPadding.Manifest
import StructPadding.Path

/-!
# Extraction

The structs that a file declares, laid out. A file is a manifest if its name says JSON, and a Go
source otherwise.
-/

namespace StructPadding

/-- What is wrong with a Go source before types come in. -/
inductive SourceFault where
  | encoding
  | scan (cause : Go.ScanCause)
  | grammar (cause : Go.SyntaxCause)
deriving DecidableEq

def SourceFault.message : SourceFault → String
  | encoding => "invalid UTF-8"
  | scan cause => cause.message
  | grammar cause => cause.message

/-- Why no structs can be extracted from a file. -/
inductive ExtractError where
  | source (line : Nat) (fault : SourceFault)
  | types (fault : Go.TypeFault)
  | layout (error : LayoutError)
  | manifest (error : Json.DecodeError)

namespace ExtractError

/-- The complaint about the file at a path. -/
def message (path : String) : ExtractError → String
  | source line fault => s!"{path}:{line}: {fault.message}"
  | types fault => s!"{path}: {fault.message}"
  | layout error => s!"Layout error: {error.message}"
  | manifest error => s!"Manifest error: {error.message}"

def ofResolve : Go.ResolveError → ExtractError
  | .type fault => types fault
  | .layout error => layout error

end ExtractError

namespace Go

/-- The characters of a source. -/
def sourceChars (source : List UInt8) : Except ExtractError (List Char) :=
  match Text.Utf8.decode source with
  | .ok cs => .ok cs
  | .error offset => .error (.source ((source.take offset).count 0x0a + 1) .encoding)

/-- The declarations of a source. -/
def declarations (source : List Char) : Except ExtractError (List TypeDecl) :=
  match tokens source with
  | .error e => .error (.source e.line (.scan e.cause))
  | .ok tokens =>
    match TypeDecl.parseAll source tokens with
    | .error e => .error (.source e.line (.grammar e.cause))
    | .ok decls => .ok decls

/-- The first name that is declared again. -/
def redeclared? (seen : List String) : List TypeDecl → Option String
  | [] => none
  | d :: ds => if seen.contains d.name then some d.name else redeclared? (d.name :: seen) ds

/-- The layouts of the structs among the declarations that are left. -/
def layoutsFrom (path : String) (s : Scope) :
    List TypeDecl → Memo → Journal (Except ExtractError (List Layout))
  | [], _ => return .ok []
  | d :: ds, memo => do
    match s.recordFields d memo with
    | (.error e, _) => return .error (.ofResolve e)
    | (.ok none, memo) =>
      if d.generic then .note .debug s!"{path}: skipping generic type {d.name}"
      layoutsFrom path s ds memo
    | (.ok (some fields), memo) =>
      match place s.rule fields 0 with
      | .error e => return .error (.layout e)
      | .ok placed =>
        let rest ← layoutsFrom path s ds memo
        return rest.map (⟨d.name, d.lines, placed⟩ :: ·)

/-- The structs of a Go source, laid out for a target. -/
def extract (target : Target) (rule : RecordRule) (path : String) (source : List UInt8) :
    Journal (Except ExtractError (List Layout)) := do
  match sourceChars source with
  | .error e => return .error e
  | .ok cs =>
    match declarations cs with
    | .error e => return .error e
    | .ok decls =>
      match redeclared? [] decls with
      | some name => return .error (.types (.redeclared name))
      | none =>
        let outcome ← layoutsFrom path ⟨target, rule, decls⟩ decls []
        match outcome with
        | .ok layouts =>
          .note .debug s!"{path}: {decls.length} type declarations, {layouts.length} structs"
        | .error _ => pure ()
        return outcome

end Go

namespace Manifest

/-- The structs of a manifest, laid out. -/
def extract (rule : RecordRule) (path : String) (source : List UInt8) :
    Journal (Except ExtractError (List Layout)) := do
  match Json.decodeText ofNode source with
  | .error e => return .error (.manifest e)
  | .ok m =>
    .note .debug s!"{path}: {m.structs.length} structs in manifest"
    return (m.layouts rule).mapError .layout

end Manifest

/-- Whether the file at a path is a manifest. -/
def isManifest (path : String) : Bool :=
  match Path.extension? path with
  | some e => e.map Char.toLower == "json"
  | none => false

/-- The structs that a file declares, laid out. -/
def extract (target : Go.Target) (rule : RecordRule) (path : String) (source : List UInt8) :
    Journal (Except ExtractError (List Layout)) :=
  if isManifest path then Manifest.extract rule path source
  else Go.extract target rule path source

end StructPadding
