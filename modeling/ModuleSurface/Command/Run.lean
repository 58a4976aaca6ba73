import ModuleSurface.Command.Arguments
import ModuleSurface.Command.Work
import ModuleSurface.Config.Load

/-!
# Run — the commands from their arguments to what they print and leave behind

A command prints as it goes along, so what it has printed before a fault stays printed.  The fault
itself goes to the error output.
-/

namespace ModuleSurface

/-- What a command has printed, whether it ended well, and the files it leaves behind. -/
structure Completion where
  printed : String
  result : Except CommandFault Unit
  tree : FileTree

namespace Completion

def success (tree : FileTree) (printed : String) : Completion :=
  ⟨printed, .ok (), tree⟩

def failure (tree : FileTree) (fault : CommandFault) (printed : String) : Completion :=
  ⟨printed, .error fault, tree⟩

def status (completion : Completion) : Nat :=
  match completion.result with
  | .ok () => 0
  | .error fault => fault.status

/-- What goes to the error output. -/
def complaint (completion : Completion) : String :=
  match completion.result with
  | .ok () => ""
  | .error fault => "Error: " ++ fault.message ++ "\n"

end Completion

namespace Command

def settings (tree : FileTree) (path? : Option String) (overrides : Overrides) :
    Logged (Except CommandFault Config) := do
  return ((← Config.load tree path?).mapError .config).map (·.override overrides)

/-! ## 1. Checking -/

def findingLines (report : ConsistencyReport) : String :=
  s!"Warning: {report.findings.length} consistency issue(s):\n" ++
    String.join (report.findings.map fun finding => s!"  - {finding.message}\n")

def checkLines (checked : CheckedModule) : String :=
  s!"  Module {checked.module.name}: {checked.module.funcs.length} function(s), " ++
    s!"{checked.module.vars.length} variable(s)\n" ++
    if checked.report.isClean then "✓ No consistency issues\n" else findingLines checked.report

def runCheck (tree : FileTree) (config : Option String) (file : String) (denyWarnings : Bool) :
    Logged Completion := do
  let overrides : Overrides := { denyWarnings := if denyWarnings then some true else none }
  match ← settings tree config overrides with
  | .error fault => return .failure tree fault ""
  | .ok config =>
      let begun := s!"Checking {file}\n"
      match ← Document.check tree file with
      | .error fault => return .failure tree fault begun
      | .ok checked =>
          let printed := begun ++ checkLines checked
          if checked.passes config.check.denyWarnings then return .success tree printed
          else
            let count := checked.report.findings.length
            return .failure tree (.objection (.findings count file)) printed

/-! ## 2. Formatting -/

def formatLine : WriteResult → String
  | .written path _ => s!"✓ Formatted {path}\n"
  | .unchanged path | .dryRun path _ => s!"✓ {path} already formatted\n"

def lookFormat (tree : FileTree) (file : String) (formatting : Formatting) : Completion :=
  if formatting.isCanonical then .success tree s!"✓ {file} is formatted\n"
  else
    .failure tree (.objection (.notFormatted file))
      s!"✗ {file} is not formatted\n  Run 'pygen fmt {file}' to update\n"

def runFormat (tree : FileTree) (config : Option String) (file : String)
    (onlyLook compact : Bool) : Logged Completion := do
  let overrides : Overrides := { pretty := if compact then some false else none }
  match ← settings tree config overrides with
  | .error fault => return .failure tree fault ""
  | .ok config =>
      match ← Document.format tree file config.output.pretty with
      | .error fault => return .failure tree fault ""
      | .ok formatting =>
          if onlyLook then return lookFormat tree file formatting
          else
            match ← Output.write false tree file formatting.canonical with
            | (.error fault, tree) => return .failure tree (.write fault) ""
            | (.ok result, tree) => return .success tree (formatLine result)

/-! ## 3. Rendering -/

/-- The line around a text that is only shown. -/
def rule : String :=
  String.ofList (List.replicate 60 '─') ++ "\n"

def renderLines : WriteResult → String
  | .written path bytes => s!"✓ Written {bytes} bytes to {path}\n"
  | .unchanged path => s!"✓ {path} is up to date\n"
  | .dryRun path content =>
      s!"[dry-run] Would write to {path}:\n" ++ rule ++ content ++ rule

/-- The settings of a rendering, once they are found to be valid. -/
def renderSettings (tree : FileTree) (config : Option String) (overrides : Overrides) :
    Logged (Except CommandFault Config) := do
  return (← settings tree config overrides).bind fun config =>
    (config.validate.mapError .config).map fun _ => config

def runRender (tree : FileTree) (config : Option String) (file : String)
    (overrides : Overrides) (dryRun : Bool) : Logged Completion := do
  match ← renderSettings tree config overrides with
  | .error fault => return .failure tree fault ""
  | .ok config =>
      let begun := s!"Rendering {file} with the {config.render.format} emitter\n"
      match ← Document.render tree file config with
      | .error fault => return .failure tree fault begun
      | .ok rendered =>
          match ← Output.writeEmitted dryRun tree config.output.dir rendered with
          | (.error fault, tree) => return .failure tree (.write fault) begun
          | (.ok result, tree) => return .success tree (begun ++ renderLines result)

/-! ## 4. A new file of settings -/

def runInit (tree : FileTree) (output : String) (force : Bool) : Completion :=
  if tree.pathExists output && !force then
    .failure tree (.objection (.configExists output)) "  Use --force to overwrite\n"
  else
    match tree.writeText output Config.defaultText with
    | .error fault => .failure tree (.file fault) ""
    | .ok tree => .success tree s!"✓ Created configuration file: {output}\n"

/-! ## 5. All commands -/

def renderOverrides (format output : Option String) (noDocs : Bool) : Overrides where
  output
  format
  includeDocs := if noDocs then some false else none

end Command

def Invocation.run (invocation : Invocation) (tree : FileTree) : Logged Completion :=
  match invocation.command with
  | .check file denyWarnings => Command.runCheck tree invocation.config file denyWarnings
  | .format file onlyLook compact =>
      Command.runFormat tree invocation.config file onlyLook compact
  | .render file format output dryRun noDocs =>
      Command.runRender tree invocation.config file
        (Command.renderOverrides format output noDocs) dryRun
  | .init output force => pure (Command.runInit tree output force)

/-! ## 6. Which files a run looks at -/

namespace Invocation

/-- The paths that the arguments name, or that are looked at in any case. -/
def namedPaths (invocation : Invocation) : List String :=
  let config := invocation.config.getD Config.fileName
  match invocation.command with
  | .check file _ | .format file _ _ | .render file _ _ _ _ => [config, file]
  | .init output _ => [output]

/-- The path that a rendering would write to, as far as its settings and its document are there. -/
def renderedPath? (invocation : Invocation) (tree : FileTree) : Option String :=
  match invocation.command with
  | .render file format output _ noDocs =>
      let overrides := Command.renderOverrides format output noDocs
      match (Command.renderSettings tree invocation.config overrides).value with
      | .error _ => none
      | .ok config =>
          match (Document.render tree file config).value with
          | .error _ => none
          | .ok rendered => some (Path.join config.output.dir rendered.path)
  | _ => none

end Invocation

end ModuleSurface
