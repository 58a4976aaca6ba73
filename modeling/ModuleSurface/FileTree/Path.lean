import ModuleSurface.Text.Lines

/-!
# Path — texts that say where a file stands

A path is kept as it was given.  Cut at its slashes it has segments; its components are the
segments that matter: empty ones do not, nor does a single dot, except at the very start.
-/

namespace ModuleSurface.Path

abbrev Name := List Char

def here : Name := ['.']

def above : Name := ['.', '.']

def segments (path : String) : List Name :=
  Text.split '/' path.toList

def isAbsolute (path : String) : Bool :=
  path.toList.head? == some '/'

/-- Whether a segment is one that does not matter behind the first one. -/
def isIdle (segment : Name) : Bool :=
  segment.isEmpty || segment == here

/-! ## 1. Components -/

/-- The parts of a path that matter. -/
inductive Component
  | root
  | here
  | above
  | plain (name : Name)
  deriving DecidableEq, Repr

def component? (segment : Name) : Option Component :=
  if isIdle segment then none
  else if segment = Path.above then some .above
  else some (.plain segment)

def components (path : String) : List Component :=
  if path = "" then []
  else
    match segments path with
    | [] => []
    | first :: rest =>
        (if first.isEmpty then [.root] else if first = here then [.here]
          else (component? first).toList) ++ rest.filterMap component?

/-- Whether a path leads from any directory to something inside it, without a detour. -/
def isContained (path : String) : Bool :=
  !(components path).isEmpty && (components path).all fun
    | .plain _ => true
    | _ => false

/-! ## 2. Joining, and the path above -/

def join (directory file : String) : String :=
  if directory = "" then file
  else if directory.toList.getLast? = some '/' then directory ++ file
  else directory ++ "/" ++ file

/-- Segments without those at their end that do not matter; the first one always does. -/
def dropIdle : List Name → List Name
  | [] => []
  | first :: rest => first :: (rest.reverse.dropWhile isIdle).reverse

def ofSegments (segments : List Name) : String :=
  if segments = [[]] then "/" else String.ofList (Text.join ['/'] segments)

/-- The path without its last component; none for the root and for the empty path. -/
def parent? (path : String) : Option String :=
  if path = "" then none
  else
    match dropIdle (segments path) with
    | [] => none
    | [[]] => none
    | [_] => some ""
    | kept => some (ofSegments (dropIdle kept.dropLast))

/-- The paths above a path and the path itself, the longest first, without the root and the empty
path; there are at most `bound`. -/
def ancestorsFrom : Nat → String → List String
  | 0, _ => []
  | bound + 1, path =>
      match parent? path with
      | none => []
      | some parent => path :: ancestorsFrom bound parent

def ancestors (path : String) : List String :=
  ancestorsFrom (segments path).length path

end ModuleSurface.Path
