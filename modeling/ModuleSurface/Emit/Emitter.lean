import ModuleSurface.Emit.Markdown
import ModuleSurface.Emit.OutputPath
import ModuleSurface.Emit.Stub

/-!
# Emitter — the emitters there are, and what emission gives

An emission tells that it begins, renders the lines, and only then looks whether the name of the
module gives a path.
-/

namespace ModuleSurface

inductive Emitter
  | stub
  | markdown
  deriving DecidableEq, Repr

namespace Emitter

def id : Emitter → String
  | stub => "stub"
  | markdown => "markdown"

def ofId? : String → Option Emitter
  | "stub" => some stub
  | "markdown" | "md" => some markdown
  | _ => none

/-- The words that select emitters, one for each. -/
def ids : List String :=
  [stub.id, markdown.id]

def name : Emitter → String
  | stub => "Type Stub Emitter"
  | markdown => "Markdown Reference Emitter"

def extension : Emitter → String
  | stub => "pyi"
  | markdown => "md"

/-- How an emitter makes paths of dotted names. -/
def pathShape : Emitter → OutputPath.Shape
  | stub => .nested
  | markdown => .flat

def path (emitter : Emitter) (module : String) : Except EmitFault String :=
  (OutputPath.ofName emitter.pathShape emitter.extension module).mapError fun fault =>
    ⟨emitter.id,
      s!"cannot derive an output path from module name '{module}': {fault.message}"⟩

def lines : Emitter → EmitConfig → Module → Logged (List String)
  | stub => Stub.lines
  | markdown => Markdown.lines

def emit (emitter : Emitter) (config : EmitConfig) (module : Module) :
    Logged (Except EmitFault EmittedFile) := do
  Logged.tell (.emitting module.name emitter.id)
  let lines ← emitter.lines config module
  return (emitter.path module.name).map fun path =>
    ⟨module.name, path, config.joinLines lines⟩

theorem ofId?_id (emitter : Emitter) : ofId? emitter.id = some emitter := by
  cases emitter <;> rfl

end Emitter

end ModuleSurface
