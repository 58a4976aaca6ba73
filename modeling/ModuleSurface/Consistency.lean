import ModuleSurface.Module

/-!
# Consistency — what a module says against what its producer promised

Three kinds of finding: a symbol whose kind is not the one of its partition, a name that a
partition has more than once, and a name that both partitions have.  The report lists them
partition by partition, then the names in both, and never changes or refuses the module.
-/

namespace ModuleSurface

inductive Finding
  | duplicateName (name : String) (partition : Partition) (count : Nat)
  | crossPartition (name : String)
  | kindMismatch (name : String) (partition : Partition) (kind : Kind)
  deriving DecidableEq, Repr

namespace Finding

def message : Finding → String
  | duplicateName name partition count =>
      s!"'{name}' appears {count} times in {partition.key}"
  | crossPartition name => s!"'{name}' appears in both functions and variables"
  | kindMismatch name partition kind =>
      s!"'{name}' has type '{kind.text}' but is listed under {partition.key}"

end Finding

/-! ## 1. How often each name occurs -/

/-- Names with the number of their occurrences, in the order of the first ones. -/
abbrev Tally := List (String × Nat)

namespace Tally

def count (name : String) : Tally → Tally
  | [] => [(name, 1)]
  | (known, n) :: rest =>
      if known = name then (known, n + 1) :: rest else (known, n) :: count name rest

def ofNames (names : List String) : Tally :=
  names.foldl (fun tally name => tally.count name) []

end Tally

/-! ## 2. The findings -/

namespace Module

/-- The symbols of a partition whose kind is not the partition's own. -/
def kindMismatches (module : Module) (partition : Partition) : List Finding :=
  (module.partition partition).filterMap fun symbol =>
    if symbol.kind = partition.kind then none
    else some (.kindMismatch symbol.name partition symbol.kind)

def duplicateNames (module : Module) (partition : Partition) : List Finding :=
  (Tally.ofNames ((module.partition partition).map (·.name))).filterMap fun (name, count) =>
    if count > 1 then some (.duplicateName name partition count) else none

/-- The names in `names` that also occur in `others`, each told once; `told` has been told. -/
def sharedNames (others : List String) (told : List String) : List String → List String
  | [] => []
  | name :: names =>
      if others.contains name && !told.contains name then
        name :: sharedNames others (name :: told) names
      else sharedNames others told names

def crossPartitionNames (module : Module) : List Finding :=
  (sharedNames (module.funcs.map (·.name)) [] (module.vars.map (·.name))).map
    .crossPartition

end Module

structure ConsistencyReport where
  module : String
  findings : List Finding
  deriving DecidableEq, Repr

namespace ConsistencyReport

def isClean (report : ConsistencyReport) : Bool :=
  report.findings.isEmpty

def tell (report : ConsistencyReport) : Logged Unit :=
  Logged.tellAll (report.findings.map fun finding => .inconsistent report.module finding.message)

end ConsistencyReport

def Module.check (module : Module) : ConsistencyReport where
  module := module.name
  findings :=
    module.kindMismatches .funcs ++ module.duplicateNames .funcs ++
      (module.kindMismatches .vars ++ module.duplicateNames .vars) ++
      module.crossPartitionNames

end ModuleSurface
