import ModuleSurface.Text.Lines

/-!
# OutputPath — the path of an emitted file, from the name of the module

A module name gives a path only if it is a dotted name without anything that a path could mean
something else by: separators, a drive letter's colon, the null character, empty segments.
-/

namespace ModuleSurface.OutputPath

inductive NameFault
  | empty
  | separator
  | emptySegment
  deriving DecidableEq, Repr

def NameFault.message : NameFault → String
  | empty => "name is empty"
  | separator => "name contains a path separator"
  | emptySegment => "name has an empty dotted segment"

/-- Whether a character may not occur in a module name that is to give a path. -/
def isSeparator (c : Char) : Bool :=
  c == '/' || c == '\\' || c == ':' || c == '\x00'

def segments (name : List Char) : List (List Char) :=
  Text.split '.' name

def nameFault? (name : List Char) : Option NameFault :=
  if name.isEmpty then some .empty
  else if name.any isSeparator then some .separator
  else if (segments name).any (·.isEmpty) then some .emptySegment
  else none

/-- How the dotted segments of a name make up a path. -/
inductive Shape
  /-- The whole name is the stem of one file. -/
  | flat
  /-- Every segment but the last is a directory. -/
  | nested
  deriving DecidableEq, Repr

/-- The path without its extension. -/
def stem : Shape → List Char → List Char
  | .flat, name => name
  | .nested, name => Text.join ['/'] (segments name)

def ofName (shape : Shape) (extension : String) (name : String) : Except NameFault String :=
  match nameFault? name.toList with
  | some fault => .error fault
  | none => .ok (String.ofList (stem shape name.toList) ++ "." ++ extension)

end ModuleSurface.OutputPath
