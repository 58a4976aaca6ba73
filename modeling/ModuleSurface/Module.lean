import ModuleSurface.Event
import ModuleSurface.Symbol

/-!
# Module — the public surface of one source module

A module has a function partition and a variable partition.  Symbols are only ever appended:
nothing is reordered, dropped or checked for repeated names, and a symbol's kind does not decide
where it goes.
-/

namespace ModuleSurface

inductive Partition
  | funcs
  | vars
  deriving DecidableEq, Repr

namespace Partition

def key : Partition → String
  | funcs => "functions"
  | vars => "variables"

def kind : Partition → Kind
  | funcs => .function
  | vars => .variable

end Partition

/-- The public surface of one source module, in declaration order. -/
structure Module where
  name : String
  funcs : List Symbol
  vars : List Symbol
  deriving DecidableEq, Repr

namespace Module

def empty (name : String) : Module :=
  ⟨name, [], []⟩

def partition (module : Module) : Partition → List Symbol
  | .funcs => module.funcs
  | .vars => module.vars

def push (partition : Partition) (symbol : Symbol) (module : Module) : Module :=
  match partition with
  | .funcs => { module with funcs := module.funcs ++ [symbol] }
  | .vars => { module with vars := module.vars ++ [symbol] }

/-- Appends a symbol to a partition and tells so. -/
def append (partition : Partition) (symbol : Symbol) (module : Module) : Logged Module := do
  Logged.tell <|
    match partition with
    | .funcs => .functionAdded module.name symbol.name
    | .vars => .variableAdded module.name symbol.name
  return module.push partition symbol

def appendAll (partition : Partition) : List Symbol → Module → Logged Module
  | [], module => pure module
  | symbol :: symbols, module => do appendAll partition symbols (← module.append partition symbol)

/-- All symbols, functions first, each with the partition it stands in. -/
def symbols (module : Module) : List (Partition × Symbol) :=
  module.funcs.map (Partition.funcs, ·) ++ module.vars.map (Partition.vars, ·)

def size (module : Module) : Nat :=
  module.funcs.length + module.vars.length

def isEmpty (module : Module) : Bool :=
  module.funcs.isEmpty && module.vars.isEmpty

@[simp] theorem partition_push (p q : Partition) (symbol : Symbol) (module : Module) :
    (module.push p symbol).partition q =
      if q = p then module.partition q ++ [symbol] else module.partition q := by
  cases p <;> cases q <;> rfl

@[simp] theorem name_push (p : Partition) (symbol : Symbol) (module : Module) :
    (module.push p symbol).name = module.name := by
  cases p <;> rfl

@[simp] theorem append_value (p : Partition) (symbol : Symbol) (module : Module) :
    (module.append p symbol).value = module.push p symbol := rfl

end Module

end ModuleSurface
