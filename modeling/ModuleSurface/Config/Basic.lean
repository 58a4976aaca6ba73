import ModuleSurface.Emit.Emitter
import ModuleSurface.FileTree.Basic

/-!
# Config — the settings of a run, what may override them, and what can be wrong with them

Formats and indentations are settings of any text.  Whether a text names one of the choices there
are is looked at when the settings are validated, and again when they are put to use.
-/

namespace ModuleSurface

structure OutputSettings where
  dir : String := "./generated"
  pretty : Bool := true
  deriving DecidableEq, Repr

structure RenderSettings where
  format : String := "stub"
  includeDocs : Bool := true
  indent : String := "spaces4"
  deriving DecidableEq, Repr

structure CheckSettings where
  denyWarnings : Bool := false
  deriving DecidableEq, Repr

structure Config where
  output : OutputSettings := {}
  render : RenderSettings := {}
  check : CheckSettings := {}
  deriving DecidableEq, Repr

/-! ## 1. What can be wrong -/

inductive UnknownChoice
  | emitter (id : String)
  | indent (name : String)
  deriving DecidableEq, Repr

namespace UnknownChoice

def key : UnknownChoice → String
  | emitter _ => "render.format"
  | indent _ => "render.indent"

def message : UnknownChoice → String
  | emitter id => s!"unknown emitter '{id}'"
  | indent name => s!"unknown indent '{name}'"

def choices : UnknownChoice → String
  | emitter _ => "expected one of: " ++ ", ".intercalate Emitter.ids
  | indent _ => "expected spaces2, spaces4 or tabs"

end UnknownChoice

inductive ConfigFault
  | notFound (path : String)
  | unreadable (path : String) (fault : FileFault)
  | invalidToml (path : String)
  /-- A setting was refused when the settings were validated. -/
  | refused (choice : UnknownChoice)
  /-- A setting turned out to be of no use. -/
  | unusable (choice : UnknownChoice)
  deriving DecidableEq, Repr

/-- The fault in one sentence; only a refusal lists the choices there are. -/
def ConfigFault.message : ConfigFault → String
  | notFound path => s!"Configuration file not found: {path}"
  | unreadable path fault => s!"Failed to read config {path}: {fault.message}"
  | invalidToml path => s!"Invalid TOML in {path}"
  | refused choice =>
      s!"Invalid configuration value for '{choice.key}': {choice.message} ({choice.choices})"
  | unusable choice => s!"Invalid configuration value for '{choice.key}': {choice.message}"

namespace Config

/-- Looks whether the format and the indentation name choices there are, in this order. -/
def validate (config : Config) : Except ConfigFault Unit :=
  if (Emitter.ofId? config.render.format).isNone then
    .error (.refused (.emitter config.render.format))
  else if (Indent.ofName? config.render.indent).isNone then
    .error (.refused (.indent config.render.indent))
  else .ok ()

def emitter (config : Config) : Except ConfigFault Emitter :=
  match Emitter.ofId? config.render.format with
  | some emitter => .ok emitter
  | none => .error (.unusable (.emitter config.render.format))

def emitConfig (config : Config) : Except ConfigFault EmitConfig :=
  match Indent.ofName? config.render.indent with
  | some indent => .ok { includeDocs := config.render.includeDocs, indent }
  | none => .error (.unusable (.indent config.render.indent))

end Config

/-! ## 2. Overrides -/

structure Overrides where
  output : Option String := none
  pretty : Option Bool := none
  format : Option String := none
  includeDocs : Option Bool := none
  denyWarnings : Option Bool := none
  deriving DecidableEq, Repr

namespace Config

/-- The settings with those in their places that are given for the run. -/
def override (config : Config) (overrides : Overrides) : Config where
  output :=
    { dir := overrides.output.getD config.output.dir
      pretty := overrides.pretty.getD config.output.pretty }
  render :=
    { format := overrides.format.getD config.render.format
      includeDocs := overrides.includeDocs.getD config.render.includeDocs
      indent := config.render.indent }
  check := { denyWarnings := overrides.denyWarnings.getD config.check.denyWarnings }

@[simp] theorem override_none (config : Config) : config.override {} = config := rfl

end Config

/-! ## 3. The file that holds the settings -/

namespace Config

/-- The name under which the settings are looked for when no other is given. -/
def fileName : String :=
  "pygen.toml"

/-- The lines of a new file of settings; each setting has its default value. -/
def defaultLines : List String :=
  [ "# pygen configuration file",
    "",
    "[output]",
    "# Output directory for rendered files",
    "dir = \"./generated\"",
    "",
    "# Whether \x60pygen fmt\x60 writes indented JSON",
    "pretty = true",
    "",
    "[render]",
    "# Emitter used by \x60pygen render\x60 (stub, markdown)",
    "format = \"stub\"",
    "",
    "# Whether to render documentation strings",
    "include_docs = true",
    "",
    "# Indentation of generated code (spaces2, spaces4, tabs)",
    "indent = \"spaces4\"",
    "",
    "[check]",
    "# Fail \x60pygen check\x60 when consistency issues are found",
    "deny_warnings = false"]

def defaultText : String :=
  "\n".intercalate defaultLines ++ "\n"

end Config

end ModuleSurface
