import ModuleSurface.FileTree.Path

/-!
# FileTree — files and directories, and what becomes of them

A tree has an entry for each location but the root, which is always a directory.  Paths are
followed segment by segment from the working directory or the root; there are no links.  What can
go wrong is what a POSIX system reports, and so is its wording.
-/

namespace ModuleSurface

open ModuleSurface.Path (Name)

inductive Entry
  | directory
  | file (bytes : ByteArray)

instance : DecidableEq Entry
  | .directory, .directory => isTrue rfl
  | .directory, .file _ => isFalse nofun
  | .file _, .directory => isFalse nofun
  | .file a, .file b =>
      if h : a.data = b.data then isTrue (congrArg Entry.file (ByteArray.ext h))
      else isFalse fun same => h (congrArg ByteArray.data (Entry.file.inj same))

/-- The names on the way from the root to a place in a tree. -/
abbrev Location := List Name

inductive FileFault
  | missing
  | alreadyExists
  | notDirectory
  | isDirectory
  | nameTooLong
  | nullCharacter
  | notText
  deriving DecidableEq, Repr

def FileFault.message : FileFault → String
  | missing => "No such file or directory (os error 2)"
  | alreadyExists => "File exists (os error 17)"
  | notDirectory => "Not a directory (os error 20)"
  | isDirectory => "Is a directory (os error 21)"
  | nameTooLong => "File name too long (os error 36)"
  | nullCharacter => "file name contained an unexpected NUL byte"
  | notText => "stream did not contain valid UTF-8"

/-- The entries of a tree, and the directory that relative paths start from. -/
structure FileTree where
  entries : List (Location × Entry)
  workingDirectory : Location

namespace FileTree

/-! ## 1. Entries -/

def empty : FileTree :=
  ⟨[], []⟩

def findEntry (location : Location) : List (Location × Entry) → Option Entry
  | [] => none
  | (known, entry) :: rest => if known = location then some entry else findEntry location rest

def get? (tree : FileTree) (location : Location) : Option Entry :=
  if location = [] then some .directory else findEntry location tree.entries

/-- Sets the entry of a location in a list of entries, in its place or at the end. -/
def putEntry (location : Location) (entry : Entry) :
    List (Location × Entry) → List (Location × Entry)
  | [] => [(location, entry)]
  | (known, old) :: rest =>
      if known = location then (known, entry) :: rest
      else (known, old) :: putEntry location entry rest

def put (tree : FileTree) (location : Location) (entry : Entry) : FileTree :=
  { tree with entries := putEntry location entry tree.entries }

theorem findEntry_putEntry (at₁ at₂ : Location) (entry : Entry)
    (entries : List (Location × Entry)) :
    findEntry at₂ (putEntry at₁ entry entries) =
      if at₂ = at₁ then some entry else findEntry at₂ entries := by
  induction entries with
  | nil => simp [putEntry, findEntry, eq_comm]
  | cons head rest ih =>
    obtain ⟨known, old⟩ := head
    simp only [putEntry]
    by_cases hknown : known = at₁
    · rw [if_pos hknown]
      simp only [findEntry]
      by_cases hsame : at₂ = at₁
      · rw [if_pos hsame, if_pos (hknown.trans hsame.symm)]
      · rw [if_neg hsame, if_neg (fun h => hsame (h.symm.trans hknown)),
          if_neg (fun h => hsame (h.symm.trans hknown))]
    · rw [if_neg hknown]
      simp only [findEntry, ih]
      by_cases hsame : at₂ = at₁
      · simp [hsame, hknown]
      · simp [hsame]

@[simp] theorem get?_put (tree : FileTree) (at₁ at₂ : Location) (entry : Entry) (h : at₁ ≠ []) :
    (tree.put at₁ entry).get? at₂ = if at₂ = at₁ then some entry else tree.get? at₂ := by
  simp only [get?, put, findEntry_putEntry]
  by_cases hroot : at₂ = []
  · simp [hroot, h.symm]
  · simp [hroot]

/-! ## 2. Following paths -/

def nameSize (name : Name) : Nat :=
  name.foldr (fun c size => c.utf8Size + size) 0

/-- How many bytes a name may have and a path has to stay below, if there are limits at all. -/
class Limits where
  name? : Option Nat
  path? : Option Nat

instance Limits.posix : Limits :=
  ⟨some 255, some 4096⟩

variable [Limits]

def isLongName (name : Name) : Bool :=
  Limits.name?.any fun limit => nameSize name > limit

def isLongPath (path : String) : Bool :=
  Limits.path?.any fun limit => path.utf8ByteSize ≥ limit

def isDirectoryAt (tree : FileTree) (location : Location) : Bool :=
  tree.get? location == some .directory

/-- One step of a path, from a location that has to be a directory. -/
def enter (tree : FileTree) (location : Location) (name : Name) : Except FileFault Location :=
  if !tree.isDirectoryAt location then .error .notDirectory
  else if Path.isIdle name then .ok location
  else if name = Path.above then .ok location.dropLast
  else if isLongName name then .error .nameTooLong
  else
    match tree.get? (location ++ [name]) with
    | none => .error .missing
    | some _ => .ok (location ++ [name])

def walk (tree : FileTree) (location : Location) : List Name → Except FileFault Location
  | [] => .ok location
  | name :: names => do tree.walk (← tree.enter location name) names

def origin (tree : FileTree) (path : String) : Location :=
  if Path.isAbsolute path then [] else tree.workingDirectory

/-- Why a text cannot be followed as a path at all, if there is a reason. -/
def pathFault? (path : String) : Option FileFault :=
  if path.toList.contains '\x00' then some .nullCharacter
  else if path = "" then some .missing
  else if isLongPath path then some .nameTooLong
  else none

def resolve (tree : FileTree) (path : String) : Except FileFault Location :=
  match pathFault? path with
  | some fault => .error fault
  | none => tree.walk (tree.origin path) (Path.segments path)

def pathExists (tree : FileTree) (path : String) : Bool :=
  (tree.resolve path).isOk

def isDirectory (tree : FileTree) (path : String) : Bool :=
  match tree.resolve path with
  | .ok location => tree.isDirectoryAt location
  | .error _ => false

def readText (tree : FileTree) (path : String) : Except FileFault String := do
  let location ← tree.resolve path
  match tree.get? location with
  | none => throw .missing
  | some .directory => throw .isDirectory
  | some (.file bytes) =>
      match String.fromUTF8? bytes with
      | some text => return text
      | none => throw .notText

/-! ## 3. New files and directories -/

/-- A path as the names before its last one, the last one, and whether slashes follow it. -/
def splitLast (path : String) : List Name × Name × Bool :=
  let names := (Path.segments path).reverse
  match names.dropWhile List.isEmpty with
  | [] => ([], [], true)
  | last :: before => (before.reverse, last, names.head?.any List.isEmpty)

/-- The directory that a new entry of a path would stand in, with its name and whether slashes
follow it. -/
def resolveParent (tree : FileTree) (path : String) :
    Except FileFault (Location × Name × Bool) :=
  match pathFault? path with
  | some fault => .error fault
  | none => do
      let (before, last, slashed) := splitLast path
      let location ← tree.walk (tree.origin path) before
      if !tree.isDirectoryAt location then throw .notDirectory
      return (location, last, slashed)

/-- Whether a name is none that an entry could have. -/
def isReserved (name : Name) : Bool :=
  Path.isIdle name || name == Path.above

def makeDirectory (tree : FileTree) (path : String) : Except FileFault FileTree := do
  let (location, name, _) ← tree.resolveParent path
  if isReserved name then throw .alreadyExists
  if isLongName name then throw .nameTooLong
  match tree.get? (location ++ [name]) with
  | some _ => throw .alreadyExists
  | none => return tree.put (location ++ [name]) .directory

/-- Makes directories, each inside the one that follows it in the list, as far as they are
missing.  Those that could be made stay when a later one cannot. -/
def makeEach (tree : FileTree) : List String → Except FileFault Unit × FileTree
  | [] => (.ok (), tree)
  | path :: above =>
      match tree.makeDirectory path with
      | .ok tree => (.ok (), tree)
      | .error .missing =>
          match tree.makeEach above with
          | (.error fault, tree) => (.error fault, tree)
          | (.ok (), tree) =>
              match tree.makeDirectory path with
              | .ok tree => (.ok (), tree)
              | .error fault =>
                  if fault = .alreadyExists ∧ tree.isDirectory path then (.ok (), tree)
                  else (.error fault, tree)
      | .error fault =>
          if fault = .alreadyExists ∧ tree.isDirectory path then (.ok (), tree)
          else (.error fault, tree)

def makeDirectories (tree : FileTree) (path : String) : Except FileFault Unit × FileTree :=
  tree.makeEach (Path.ancestors path)

/-- Writes a text to a file, which is made if its directory is there. -/
def writeText (tree : FileTree) (path content : String) : Except FileFault FileTree := do
  let (location, name, slashed) ← tree.resolveParent path
  if slashed || isReserved name then throw .isDirectory
  if isLongName name then throw .nameTooLong
  match tree.get? (location ++ [name]) with
  | some .directory => throw .isDirectory
  | _ => return tree.put (location ++ [name]) (.file content.toUTF8)

/-! ## 4. What has changed -/

/-- The entries of a tree that another one does not have, or has differently. -/
def changesSince (tree before : FileTree) : List (Location × Entry) :=
  tree.entries.filter fun (location, entry) => before.get? location != some entry

end FileTree

end ModuleSurface
