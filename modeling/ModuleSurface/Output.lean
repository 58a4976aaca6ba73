import ModuleSurface.Emit.Settings
import ModuleSurface.Event
import ModuleSurface.FileTree.Basic

/-!
# Output — writing texts to files, and emitted files below a directory

A file that has its text already is left alone, and a dry run leaves everything alone.  Missing
directories above a file are made.  An emitted file only goes to a path that leads from the output
directory to something inside it, and this is looked at also in a dry run.
-/

namespace ModuleSurface

inductive WriteResult
  | written (path : String) (bytes : Nat)
  | unchanged (path : String)
  | dryRun (path content : String)
  deriving DecidableEq, Repr

namespace WriteResult

def path : WriteResult → String
  | written path _ | unchanged path | dryRun path _ => path

def isWritten : WriteResult → Bool
  | written .. => true
  | _ => false

end WriteResult

inductive WriteFault
  | createDirectory (path : String) (fault : FileFault)
  | writeFile (path : String) (fault : FileFault)
  | outside (path : String)
  deriving DecidableEq, Repr

def WriteFault.message : WriteFault → String
  | createDirectory path fault => s!"Failed to create directory {path}: {fault.message}"
  | writeFile path fault => s!"Failed to write file {path}: {fault.message}"
  | outside path => s!"Refusing to write {path}: path is not inside the output directory"

namespace Output

variable [FileTree.Limits]

/-- Makes the directories above a path, unless they are there or the path has none. -/
def makeParent (tree : FileTree) (path : String) : Except WriteFault Unit × FileTree :=
  match Path.parent? path with
  | none => (.ok (), tree)
  | some parent =>
      if parent = "" ∨ tree.pathExists parent = true then (.ok (), tree)
      else
        match tree.makeDirectories parent with
        | (.ok (), tree) => (.ok (), tree)
        | (.error fault, tree) => (.error (.createDirectory parent fault), tree)

/-- Writes a text to a file whose text is another one or that is not there. -/
def replace (tree : FileTree) (path content : String) :
    Logged (Except WriteFault WriteResult × FileTree) :=
  match makeParent tree path with
  | (.error fault, tree) => pure (.error fault, tree)
  | (.ok (), tree) =>
      match tree.writeText path content with
      | .error fault => pure (.error (.writeFile path fault), tree)
      | .ok tree => do
          Logged.tell (.fileWritten path content.utf8ByteSize)
          return (.ok (.written path content.utf8ByteSize), tree)

/-- Whether a path leads to a file that holds just this text. -/
def holds (tree : FileTree) (path content : String) : Bool :=
  match tree.readText path with
  | .ok text => text == content
  | .error _ => false

def write (dryRun : Bool) (tree : FileTree) (path content : String) :
    Logged (Except WriteFault WriteResult × FileTree) :=
  if dryRun then pure (.ok (.dryRun path content), tree)
  else if holds tree path content then do
    Logged.tell (.outputUnchanged path)
    return (.ok (.unchanged path), tree)
  else replace tree path content

def writeEmitted (dryRun : Bool) (tree : FileTree) (directory : String) (file : EmittedFile) :
    Logged (Except WriteFault WriteResult × FileTree) :=
  if Path.isContained file.path then
    write dryRun tree (Path.join directory file.path) file.content
  else do
    Logged.tell (.pathRejected file.module file.path)
    return (.error (.outside file.path), tree)

end Output

end ModuleSurface
