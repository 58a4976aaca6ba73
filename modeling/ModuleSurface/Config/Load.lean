import ModuleSurface.Config.Decode
import ModuleSurface.Event

/-!
# Load — the settings of a run from a file

A file that is asked for has to be there.  The file of the usual name need not be, and then all
settings have their default values.
-/

namespace ModuleSurface.Config

/-- The settings in a file, once they are found to be valid. -/
def read (tree : FileTree) (path : String) : Except ConfigFault Config := do
  let text ← (tree.readText path).mapError (.unreadable path)
  match ofText? text with
  | none => throw (.invalidToml path)
  | some config =>
      config.validate
      return config

/-- Loads the settings from the file that is asked for, or from the one of the usual name. -/
def load (tree : FileTree) (path? : Option String) : Logged (Except ConfigFault Config) :=
  let path := path?.getD fileName
  if tree.pathExists path then do
    let result := read tree path
    if result.isOk then
      Logged.tell (.configLoaded path)
    return result
  else if path?.isSome then pure (.error (.notFound path))
  else do
    Logged.tell .configAbsent
    return .ok {}

end ModuleSurface.Config
