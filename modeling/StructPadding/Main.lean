import StructPadding.CommandLine.Run

/-!
# The program

Reads the command line, looks up the files it names, and prints the report. Notes and failures go to
the error stream.
-/

namespace StructPadding.CommandLine

/-- How the program is used. -/
def usage : String :=
  "\n".intercalate [
    "Finds struct field orders that waste memory on padding",
    "",
    "Usage: struct-padding [OPTIONS] <COMMAND>",
    "",
    "Commands:",
    "  layout <FILE> [--hex] [--no-padding]",
    "  optimize <FILE>",
    "  review [-b|--base <BASE>] --head <HEAD> [-p|--path <PATH>]",
    "  help [COMMAND]",
    "",
    "Options:",
    "  -c, --config <CONFIG>        JSON config file",
    "  -l, --log-level <LOG_LEVEL>  [default: warn]",
    "      --word-size <WORD_SIZE>  Overrides the configured word size (4 or 8)",
    "      --no-color",
    "      --json",
    "  -h, --help",
    "  -V, --version"]

def UsageError.message : UsageError → String
  | helpWanted => usage
  | versionWanted => "struct-padding 1.0.0"
  | nothingGiven => usage
  | commandMissing => "error: a command is required"
  | commandUnknown => "error: unknown command"
  | argumentUnknown => "error: unexpected argument"
  | argumentMissing => "error: a required argument is missing"
  | valueMissing => "error: a value is required"
  | valueMalformed => "error: the word size is not a number"
  | valueUnwanted => "error: unexpected value"
  | repeated => "error: an argument is given twice"

/-- What an open file holds; a directory can be opened but not read. -/
def readOpened (handle : IO.FS.Handle) : IO Entry := do
  try
    let bytes ← handle.readBinToEnd
    return .file bytes.toList
  catch _ => return .directory

/-- What stands on the disk under a path. -/
def lookOnDisk (path : String) : IO (Except FileError Entry) := do
  try
    let handle ← IO.FS.Handle.mk path .read
    let entry ← readOpened handle
    return .ok entry
  catch e =>
    match e with
    | .noFileOrDirectory .. => return .error .notFound
    | e => return .error (.other e.toString)

/-- Looks up some paths once. -/
def snapshot (paths : List String) : IO Lookup := do
  let found ← paths.mapM fun path => do
    let entry ← lookOnDisk path
    return (path, entry)
  return fun path => (found.lookup path).getD (.error .notFound)

/-- Carries out a command line. -/
def execute (i : Invocation) : IO UInt32 := do
  let out ← IO.getStdout
  let look ← snapshot i.paths
  let result := run look (← out.isTty) i
  for note in result.notes do
    if note.passes (Level.ofWord i.logLevel) then IO.eprintln note.line
  match result.value with
  | .ok report =>
    out.putStr report
    return 0
  | .error failure =>
    let mark := Style.red.paint ((← (← IO.getStderr).isTty) && !i.noColor) "[!]"
    IO.eprintln (mark ++ " " ++ failure.message)
    return 1

/-- Reads a command line and carries it out. -/
def start (args : List String) : IO UInt32 := do
  match parse args with
  | .ok i => execute i
  | .error e =>
    if e = .helpWanted || e = .versionWanted then
      IO.println e.message
      return 0
    else
      IO.eprintln e.message
      return 2

end StructPadding.CommandLine

def main (args : List String) : IO UInt32 :=
  StructPadding.CommandLine.start args
