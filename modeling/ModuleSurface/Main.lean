import ModuleSurface.Command.Program

/-!
# Main — the program on the files of this machine

A run works on a picture of the files that it may look at.  The picture is taken before the run,
and what the run changes in it is then done to the files.
-/

namespace ModuleSurface.Main

/-! ## 1. Taking a picture -/

def pathText (location : Location) : String :=
  "/" ++ "/".intercalate (location.map String.ofList)

/-- What stands at a location, if it can be looked at. -/
def look (location : Location) : IO (Option Entry) := do
  let path := (← IO.currentDir) / pathText location
  if ← path.isDir then return some .directory
  else
    try return some (.file (← IO.FS.readBinFile path))
    catch _ => return none

/-- Adds to a picture what stands on the way from a location along some names. -/
def addWay (tree : FileTree) (location : Location) : List Path.Name → IO FileTree
  | [] => return tree
  | name :: names => do
      let location :=
        if Path.isIdle name then location
        else if name == Path.above then location.dropLast
        else location ++ [name]
      if (tree.get? location).isSome then addWay tree location names
      else
        match ← look location with
        | none => return tree
        | some entry => addWay (tree.put location entry) location names

def addPath (tree : FileTree) (path : String) : IO FileTree :=
  addWay tree (tree.origin path) (Path.segments path)

/-- A picture with nothing in it but the working directory. -/
def start : IO FileTree := do
  let directory ← IO.currentDir
  let names := (Path.segments directory.toString).filter (!Path.isIdle ·)
  let tree : FileTree := { FileTree.empty with workingDirectory := names }
  addWay tree [] names

/-- The picture for a run: the paths that it names, and the one that it would render to. -/
def picture (invocation : Invocation) : IO FileTree := do
  let named ← invocation.namedPaths.foldlM addPath (← start)
  match invocation.renderedPath? named with
  | none => return named
  | some path => addPath named path

/-! ## 2. Doing what was done -/

def carryOut (change : Location × Entry) : IO Unit :=
  match change with
  | (location, .directory) => IO.FS.createDir (pathText location)
  | (location, .file bytes) => IO.FS.writeBinFile (pathText location) bytes

def isTold (verbosity : Nat) (event : Event) : Bool :=
  match event.severity with
  | .warn => true
  | .info | .debug => 1 ≤ verbosity
  | .trace => 2 ≤ verbosity

def line (event : Event) : String :=
  event.severity.word ++ " " ++ event.message ++
    String.join (event.fields.map fun (key, text) => " " ++ key ++ "=" ++ text)

def finish (before : FileTree) (outcome : Outcome) : IO UInt32 := do
  (outcome.tree.changesSince before).forM carryOut
  IO.print outcome.printed
  IO.eprint outcome.complaint
  return outcome.status.toUInt32

end ModuleSurface.Main

open ModuleSurface in
def main (arguments : List String) : IO UInt32 := do
  match Invocation.ofArguments arguments with
  | .error diversion => Main.finish .empty (Program.divert .empty diversion)
  | .ok invocation =>
      let tree ← Main.picture invocation
      let completion := invocation.run tree
      for event in completion.events do
        if Main.isTold invocation.verbosity event then IO.eprintln (Main.line event)
      Main.finish tree (Program.conclude completion.value)
