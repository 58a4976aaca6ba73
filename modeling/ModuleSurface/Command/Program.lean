import ModuleSurface.Command.Run

/-!
# Program — a whole run, from its arguments to its exit status
-/

namespace ModuleSurface

/-- What a whole run prints, how it ends, and the files it leaves behind. -/
structure Outcome where
  status : Nat
  printed : String
  complaint : String
  tree : FileTree

namespace Program

def versionLine : String :=
  "pygen 0.1.0\n"

def usageLines : String :=
  "Usage: pygen [-c|--config PATH] [-v|--verbose]... COMMAND\n" ++
    "  check FILE [--deny-warnings]\n" ++
    "  fmt FILE [--check] [--compact]\n" ++
    "  render FILE [-f|--format FORMAT] [-o|--output DIR] [--dry-run] [--no-docs]\n" ++
    "  init [-o|--output PATH] [--force]\n"

/-- What comes of arguments that give no command to run. -/
def divert (tree : FileTree) : Diversion → Outcome
  | .misuse => ⟨2, "", usageLines, tree⟩
  | .version => ⟨0, versionLine, "", tree⟩
  | .help => ⟨0, usageLines, "", tree⟩

def conclude (completion : Completion) : Outcome :=
  ⟨completion.status, completion.printed, completion.complaint, completion.tree⟩

def run (tree : FileTree) (arguments : List String) : Logged Outcome :=
  match Invocation.ofArguments arguments with
  | .error diversion => pure (divert tree diversion)
  | .ok invocation => do return conclude (← invocation.run tree)

end Program

end ModuleSurface
