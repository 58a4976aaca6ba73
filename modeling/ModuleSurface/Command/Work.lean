import ModuleSurface.Command.Fault
import ModuleSurface.Consistency
import ModuleSurface.Exchange.Encode

/-!
# Work — checking, formatting and rendering a document, without writing anything
-/

namespace ModuleSurface

open Json (Layout)

structure CheckedModule where
  module : Module
  report : ConsistencyReport
  deriving DecidableEq, Repr

/-- Whether a check passes; without denial it always does. -/
def CheckedModule.passes (checked : CheckedModule) (denyWarnings : Bool) : Bool :=
  !denyWarnings || checked.report.isClean

/-- The text of a document as it is and as it is to be. -/
structure Formatting where
  text : String
  canonical : String
  deriving DecidableEq, Repr

def Formatting.isCanonical (formatting : Formatting) : Bool :=
  formatting.text == formatting.canonical

def layoutOf (pretty : Bool) : Layout :=
  if pretty then .pretty else .compact

namespace Document

def fetch (tree : FileTree) (path : String) : Logged (Except CommandFault Document) := do
  return (← load tree path).mapError .load

def check (tree : FileTree) (path : String) : Logged (Except CommandFault CheckedModule) := do
  match ← fetch tree path with
  | .error fault => return .error fault
  | .ok document =>
      let report := document.module.check
      report.tell
      return .ok ⟨document.module, report⟩

def format (tree : FileTree) (path : String) (pretty : Bool) :
    Logged (Except CommandFault Formatting) := do
  match ← fetch tree path with
  | .error fault => return .error fault
  | .ok document =>
      return .ok ⟨document.text, ← Exchange.canonicalText (layoutOf pretty) document.module⟩

def selection (config : Config) : Except CommandFault (Emitter × EmitConfig) :=
  (do return (← config.emitter, ← config.emitConfig)).mapError .config

/-- Renders the module of a document.  The settings are looked at before the document is. -/
def render (tree : FileTree) (path : String) (config : Config) :
    Logged (Except CommandFault EmittedFile) :=
  match selection config with
  | .error fault => pure (.error fault)
  | .ok (emitter, emitConfig) => do
      match ← fetch tree path with
      | .error fault => return .error fault
      | .ok document =>
          match ← emitter.emit emitConfig document.module with
          | .error fault => return .error (.emit fault)
          | .ok file =>
              Logged.tell (.rendered document.module.name emitter.id file.path)
              return .ok file

end Document

end ModuleSurface
