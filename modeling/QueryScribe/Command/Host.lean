import QueryScribe.Command.Path

/-!
# What a command may do

A command reads and writes files, looks into folders, reads its input and prints.
These operations are gathered in a `Host`, over any monad, so that one and the same
command runs on a real system and on a `Workspace`.
-/

namespace QueryScribe

inductive SystemError where
  | notFound
  | exists
  | notFolder
  | isFolder
  /-- A reason that the system gives in its own words. -/
  | other (text : String)
  deriving DecidableEq, Repr

namespace SystemError

def message : SystemError → String
  | notFound => "No such file or directory (os error 2)"
  | SystemError.exists => "File exists (os error 17)"
  | notFolder => "Not a directory (os error 20)"
  | isFolder => "Is a directory (os error 21)"
  | other text => text

end SystemError

structure Host (m : Type → Type) where
  /-- The text of a file. -/
  readFile : String → m (Except SystemError String)
  /-- What is left of the standard input. -/
  readInput : m String
  /-- Whether there is a file or folder at a path. -/
  isThere : String → m Bool
  isFolder : String → m Bool
  /-- The names in a folder, in any order. -/
  names : String → m (List String)
  /-- Makes a folder and all folders above it that are missing. -/
  createFolders : String → m (Except SystemError Unit)
  /-- Gives a file a text, whether or not it is there. -/
  writeFile : String → String → m (Except SystemError Unit)
  print : String → m Unit

end QueryScribe
