/-!
# Settings — how emitted text is laid out, and the file that an emission gives
-/

namespace ModuleSurface

inductive Indent
  | spaces2
  | spaces4
  | tabs
  deriving DecidableEq, Repr

namespace Indent

def text : Indent → String
  | spaces2 => "  "
  | spaces4 => "    "
  | tabs => "\t"

def ofName? : String → Option Indent
  | "spaces2" => some spaces2
  | "spaces4" => some spaces4
  | "tabs" => some tabs
  | _ => none

end Indent

inductive LineEnding
  | lf
  | crlf
  deriving DecidableEq, Repr

def LineEnding.text : LineEnding → String
  | lf => "\n"
  | crlf => "\r\n"

structure EmitConfig where
  includeDocs : Bool := true
  indent : Indent := .spaces4
  lineEnding : LineEnding := .lf
  deriving DecidableEq, Repr

/-- The lines of a file, each of them ended. -/
def EmitConfig.joinLines (config : EmitConfig) (lines : List String) : String :=
  config.lineEnding.text.intercalate lines ++ config.lineEnding.text

/-- What an emitter makes of a module; the path is relative to the output directory. -/
structure EmittedFile where
  module : String
  path : String
  content : String
  deriving DecidableEq, Repr

structure EmitFault where
  emitter : String
  reason : String
  deriving DecidableEq, Repr

def EmitFault.message (fault : EmitFault) : String :=
  s!"emitter '{fault.emitter}' failed: {fault.reason}"

end ModuleSurface
