import ModuleSurface.Config.Basic
import ModuleSurface.Document
import ModuleSurface.Output

/-!
# Fault — why a command does not end well, and the exit status that tells

A command that looked and found something wrong is told apart from one that could not do its work
by its exit status.
-/

namespace ModuleSurface

/-- What a command found wrong with its files. -/
inductive Objection
  /-- A module has findings, and findings are not let pass. -/
  | findings (count : Nat) (path : String)
  | notFormatted (path : String)
  | configExists (path : String)
  deriving DecidableEq, Repr

def Objection.message : Objection → String
  | findings count path => s!"{count} consistency issue(s) in {path}"
  | notFormatted path => s!"{path} is not formatted"
  | configExists path => s!"Configuration file already exists: {path}"

inductive CommandFault
  | load (fault : LoadFault)
  | emit (fault : EmitFault)
  | config (fault : ConfigFault)
  | write (fault : WriteFault)
  | objection (cause : Objection)
  | file (fault : FileFault)
  deriving DecidableEq, Repr

namespace CommandFault

def message : CommandFault → String
  | load fault => s!"Failed to load IR document: {fault.message}"
  | emit fault => s!"IR error: {fault.message}"
  | config fault => s!"Failed to load configuration: {fault.message}"
  | write fault => s!"Failed to write output: {fault.message}"
  | objection cause => s!"Validation failed: {cause.message}"
  | file fault => s!"IO error: {fault.message}"

def status : CommandFault → Nat
  | objection _ => 2
  | _ => 1

theorem status_ne_zero (fault : CommandFault) : fault.status ≠ 0 := by
  cases fault <;> simp [status]

end CommandFault

end ModuleSurface
