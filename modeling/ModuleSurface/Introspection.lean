import ModuleSurface.Module

/-!
# Introspection — a module from the names that were discovered in its source

Every entry has to have a name, also one that is then skipped.  Functions and variables go to
their partitions in the order of discovery; for any other kind there is no partition, so such an
entry is skipped and the log is told.
-/

namespace ModuleSurface

structure SymbolEntry where
  name : String
  kind : Kind
  doc : String
  sig : String
  deriving DecidableEq, Repr

/-- Why there is no module: the discovery failed, with a fault of its own, or an entry has no
name. -/
inductive IntrospectionFault (Fault : Type)
  | discovery (fault : Fault)
  | emptyName
  deriving DecidableEq, Repr

namespace Introspection

variable {Fault : Type}

def partitionFor? : Kind → Option Partition
  | .function => some .funcs
  | .variable => some .vars
  | .other _ => none

/-- Puts a symbol into its partition, or tells that it is skipped. -/
def route (module : Module) (symbol : Symbol) : Logged Module :=
  match partitionFor? symbol.kind with
  | some partition => module.append partition symbol
  | none => do
      Logged.tell (.kindSkipped module.name symbol.name symbol.kind.text)
      return module

def routeAll (module : Module) :
    List SymbolEntry → Logged (Except (IntrospectionFault Fault) Module)
  | [] => pure (.ok module)
  | entry :: entries =>
      match Symbol.ofParts? entry.name entry.kind entry.doc entry.sig with
      | none => pure (.error .emptyName)
      | some symbol => do routeAll (← route module symbol) entries

def introspect (name : String) (discovered : Except Fault (List SymbolEntry)) :
    Logged (Except (IntrospectionFault Fault) Module) :=
  match discovered with
  | .error fault => pure (.error (.discovery fault))
  | .ok entries => do
      let result ← routeAll (.empty name) entries
      if let .ok module := result then
        Logged.tell
          (.introspected module.name module.funcs.length module.vars.length)
      return result

end Introspection

end ModuleSurface
