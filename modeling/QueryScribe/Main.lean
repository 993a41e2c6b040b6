import QueryScribe.Command.Run

/-!
# The program

Runs a command line on the system's files, input and output.
-/

namespace QueryScribe.Program

def usage : String :=
  "usage: query-scribe [-v] (go | json) [options]\n\n" ++
  "  go    print the code of queries\n" ++
  "  json  decode queries and print extended JSON\n\n" ++
  "  -q, --query TEXT         the query itself\n" ++
  "  -i, --input PATH...      files, patterns of files, or - for the input\n" ++
  "      --jq-expr SELECTOR   what to take of each text\n" ++
  "      --config PATH        a file of options (go)\n" ++
  "      --package NAME       the package of the query builder (go)\n" ++
  "      --bson-package NAME  the package of the value types (go)\n" ++
  "      --raw-filter-fallback  write unknown operators as raw conditions (go)\n" ++
  "      --mode MODE          auto, filter or pipeline (go)\n" ++
  "      --compact            print on one line (json)\n" ++
  "      --no-unescape        do not try escaped text again\n" ++
  "  -o, --out PATH           the file to write\n" ++
  "      --no-op              do nothing"

def version : String := "query-scribe 0.1.0"

def systemError : IO.Error → SystemError
  | .noFileOrDirectory _ _ _ => .notFound
  | .alreadyExists _ _ _ => .exists
  | .inappropriateType _ 20 _ => .notFolder
  | .inappropriateType _ 21 _ => .isFolder
  | e => .other (toString e)

def guarded {α : Type} (x : IO α) : IO (Except SystemError α) := do
  try return .ok (← x)
  catch e => return .error (systemError e)

def host : Host IO where
  readFile path := guarded (IO.FS.readFile path)
  readInput := do (← IO.getStdin).readToEnd
  isThere path := do
    match ← guarded (IO.FS.realPath path) with
    | .ok p => p.pathExists
    | .error _ => return false
  isFolder path := do
    match ← guarded (IO.FS.realPath path) with
    | .ok p => p.isDir
    | .error _ => return false
  names path := do
    match ← guarded (IO.FS.realPath path) with
    | .ok p => return (← p.readDir).toList.map (·.fileName)
    | .error _ => return []
  createFolders path := guarded (if path = "" then pure () else IO.FS.createDirAll path)
  writeFile path text := guarded (IO.FS.writeFile path text)
  print text := IO.print text

end QueryScribe.Program

/-- Runs the command that the arguments name. -/
def main (arguments : List String) : IO UInt32 := do
  match QueryScribe.CommandLine.Command.ofArguments arguments with
  | .error .help => IO.println QueryScribe.Program.usage; return 0
  | .error .version => IO.println QueryScribe.Program.version; return 0
  | .error _ => IO.eprintln QueryScribe.Program.usage; return 2
  | .ok command =>
    match ← command.run QueryScribe.Program.host with
    | .ok () => return 0
    | .error e => IO.eprintln ("error: " ++ e.message); return 1
