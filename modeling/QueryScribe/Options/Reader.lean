import QueryScribe.Options.Basic
import QueryScribe.Options.Toml

/-!
# Options from a file

A file of settings may set each option by its name.  A name that is no option, or a
value of the wrong type, makes the file unreadable.  What is not set keeps its
standard value, and the package names must then be usable.
-/

namespace QueryScribe

inductive SettingsFault where
  /-- The text cannot be read, or does not have options for settings. -/
  | unreadable
  /-- A package name cannot be used. -/
  | package (fault : PackageFault)
  deriving DecidableEq, Repr

namespace Options

def set? (o : Options) : Toml.Setting → Option Options
  | ("builder-package", .string s) => some { o with builderPackage := s }
  | ("bson-package", .string s) => some { o with bsonPackage := s }
  | ("raw-filter-fallback", .bool b) => some { o with rawFilterFallback := b }
  | ("unescape-fallback", .bool b) => some { o with unescapeFallback := b }
  | _ => none

/-- The options themselves, if their package names can be used. -/
def validated (o : Options) : Except PackageFault Options :=
  match o.fault? with
  | some f => .error f
  | none => .ok o

def ofSettings (text : String) : Except SettingsFault Options :=
  match (Toml.read? text.toList).bind fun settings => settings.foldlM set? standard with
  | none => .error .unreadable
  | some o => o.validated.mapError .package

end Options

end QueryScribe
