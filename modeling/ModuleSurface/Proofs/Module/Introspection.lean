import ModuleSurface.Introspection
import ModuleSurface.Proofs.Module.Consistency

/-!
# Introspection — every discovered entry goes where its kind says, or there is no module

A symbol is told from the entry that it was made of only by its name not being empty.  One step
puts a symbol behind those of its partition or leaves the module as it is (`partition_route`), and
tells one event either way (`events_route`).  So entries with names are divided among the two
partitions and the warnings, each part in the order of discovery (`exists_routed`), and an entry
without a name leaves no module at all (`introspect_discovered`).
-/

namespace ModuleSurface

/-! ## 1. Entries as symbols -/

def Symbol.entry (symbol : Symbol) : SymbolEntry :=
  ⟨symbol.name, symbol.kind, symbol.doc, symbol.sig⟩

theorem Symbol.ofParts?_entry (symbol : Symbol) :
    Symbol.ofParts? symbol.entry.name symbol.entry.kind symbol.entry.doc symbol.entry.sig =
      some symbol := by
  have hname : symbol.entry.name ≠ "" := symbol.name_ne
  rw [Symbol.ofParts?, dif_neg hname]
  rfl

namespace SymbolEntry

theorem exists_symbol {entry : SymbolEntry} (h : entry.name ≠ "") :
    ∃ symbol : Symbol, symbol.entry = entry :=
  ⟨⟨entry.name, entry.kind, entry.doc, entry.sig, h⟩, rfl⟩

/-- What is told of an entry on its way into a module of the given name. -/
def event (module : String) (entry : SymbolEntry) : Event :=
  match entry.kind with
  | .function => .functionAdded module entry.name
  | .variable => .variableAdded module entry.name
  | .other kind => .kindSkipped module entry.name kind

/-- The entries that the partitions have no place for. -/
def skipped (entries : List SymbolEntry) : List SymbolEntry :=
  entries.filter (!·.kind.isKnown)

/-- Every entry is a function, a variable, or skipped. -/
theorem length_eq (entries : List SymbolEntry) :
    (entries.filter (·.kind = Partition.funcs.kind)).length +
      (entries.filter (·.kind = Partition.vars.kind)).length +
      (skipped entries).length = entries.length := by
  induction entries with
  | nil => rfl
  | cons entry entries ih =>
    rw [skipped] at ih ⊢
    cases hkind : entry.kind <;>
      simp only [List.filter_cons, hkind, Partition.kind, Kind.isKnown, reduceCtorEq, decide_true,
        decide_false, Bool.not_true, Bool.not_false, Bool.false_eq_true, ↓reduceIte,
        List.length_cons] at ih ⊢ <;>
      omega

end SymbolEntry

def Event.warnings (events : List Event) : List Event :=
  events.filter (·.severity = .warn)

/-- Of entries, the log is warned of those that are skipped. -/
theorem warnings_map_event (module : String) (entries : List SymbolEntry) :
    Event.warnings (entries.map (·.event module)) =
      (SymbolEntry.skipped entries).map fun entry =>
        .kindSkipped module entry.name entry.kind.text := by
  have hskipped : entries.filter ((fun event => event.severity = .warn) ∘ (·.event module)) =
      SymbolEntry.skipped entries := by
    refine List.filter_congr fun entry _ => ?_
    rw [Function.comp_apply, SymbolEntry.event]
    cases entry.kind <;> rfl
  rw [Event.warnings, List.filter_map, hskipped]
  refine List.map_congr_left fun entry hentry => ?_
  have hkind := (List.mem_filter.mp hentry).2
  rw [SymbolEntry.event]
  cases hother : entry.kind with
  | other text => rfl
  | _ => simp [hother, Kind.isKnown] at hkind

namespace Introspection

variable {Fault : Type}

/-! ## 2. One symbol -/

theorem partitionFor?_eq_some_iff {kind : Kind} {partition : Partition} :
    partitionFor? kind = some partition ↔ kind = partition.kind := by
  cases kind <;> cases partition <;> simp [partitionFor?, Partition.kind]

theorem name_route (module : Module) (symbol : Symbol) :
    (route module symbol).value.name = module.name := by
  rw [route]
  cases partitionFor? symbol.kind with
  | none => rfl
  | some partition => exact module.name_push partition symbol

/-- A symbol goes behind those of the partition for its kind. -/
theorem partition_route (module : Module) (symbol : Symbol) (partition : Partition) :
    (route module symbol).value.partition partition =
      module.partition partition ++ if symbol.kind = partition.kind then [symbol] else [] := by
  rw [route]
  cases hpartition : partitionFor? symbol.kind with
  | none =>
    have hkind : symbol.kind ≠ partition.kind := fun h => by
      rw [partitionFor?_eq_some_iff.mpr h] at hpartition
      contradiction
    rw [if_neg hkind, List.append_nil]
    rfl
  | some own =>
    have hkind := partitionFor?_eq_some_iff.mp hpartition
    show (module.push own symbol).partition partition = _
    rw [Module.partition_push, hkind]
    cases own <;> cases partition <;> simp [Partition.kind]

theorem events_route (module : Module) (symbol : Symbol) :
    (route module symbol).events = [symbol.entry.event module.name] := by
  rw [route, SymbolEntry.event]
  show _ = [match symbol.kind with
    | .function => Event.functionAdded module.name symbol.name
    | .variable => .variableAdded module.name symbol.name
    | .other kind => .kindSkipped module.name symbol.name kind]
  cases symbol.kind <;> rfl

/-! ## 3. All entries -/

/-- Whether a module is another one with the functions and the variables among some entries behind
its own, and the events are those of the entries. -/
structure Routed (start : Module) (entries : List SymbolEntry) (module : Module)
    (events : List Event) : Prop where
  name : module.name = start.name
  partition : ∀ partition, (module.partition partition).map Symbol.entry =
    (start.partition partition).map Symbol.entry ++ entries.filter (·.kind = partition.kind)
  events : events = entries.map (·.event start.name)

variable {start module : Module} {entries : List SymbolEntry} {events : List Event}

theorem Routed.nil (start : Module) : Routed start [] start [] :=
  ⟨rfl, fun _ => (List.append_nil _).symm, rfl⟩

theorem Routed.cons {symbol : Symbol}
    (h : Routed (route start symbol).value entries module events) :
    Routed start (symbol.entry :: entries) module ((route start symbol).events ++ events) := by
  constructor
  · rw [h.name, name_route]
  · intro partition
    have hkind : symbol.entry.kind = symbol.kind := rfl
    rw [h.partition, partition_route, List.map_append, List.append_assoc, List.filter_cons, hkind]
    by_cases heq : symbol.kind = partition.kind <;> simp [heq]
  · rw [events_route, h.events, name_route]
    rfl

theorem routeAll_cons (start : Module) (symbol : Symbol) (entries : List SymbolEntry) :
    routeAll start (symbol.entry :: entries) =
      (route start symbol >>= fun next => routeAll next entries :
        Logged (Except (IntrospectionFault Fault) Module)) := by
  rw [routeAll, Symbol.ofParts?_entry]

/-- Entries that all have names are put into a module. -/
theorem exists_routed (Fault : Type) (start : Module)
    (hnamed : ∀ entry ∈ entries, entry.name ≠ "") :
    ∃ module, (routeAll start entries).value =
        (.ok module : Except (IntrospectionFault Fault) Module) ∧
      Routed start entries module
        (routeAll start entries : Logged (Except (IntrospectionFault Fault) Module)).events := by
  induction entries generalizing start with
  | nil => exact ⟨start, rfl, .nil start⟩
  | cons entry entries ih =>
    obtain ⟨hentry, hmore⟩ := List.forall_mem_cons.mp hnamed
    obtain ⟨symbol, rfl⟩ := SymbolEntry.exists_symbol hentry
    obtain ⟨module, hvalue, hrouted⟩ := ih (route start symbol).value hmore
    rw [routeAll_cons]
    exact ⟨module, hvalue, hrouted.cons⟩

/-- An entry without a name leaves no module, wherever it stands. -/
theorem routeAll_of_unnamed (hunnamed : ∃ entry ∈ entries, entry.name = "") :
    (routeAll start entries).value =
      (.error .emptyName : Except (IntrospectionFault Fault) Module) := by
  induction entries generalizing start with
  | nil => simp at hunnamed
  | cons entry entries ih =>
    by_cases hentry : entry.name = ""
    · rw [routeAll, (Symbol.ofParts?_eq_none_iff ..).mpr hentry]
      rfl
    · have hmore : ∃ entry ∈ entries, entry.name = "" := by simpa [hentry] using hunnamed
      obtain ⟨symbol, rfl⟩ := SymbolEntry.exists_symbol hentry
      rw [routeAll_cons]
      exact ih hmore

/-! ## 4. The module of a discovery -/

/-- Whether a module is what becomes of discovered entries, and the events warn of the rest. -/
structure Describes (name : String) (entries : List SymbolEntry) (module : Module)
    (events : List Event) : Prop where
  module_name : module.name = name
  partition : ∀ partition,
    (module.partition partition).map Symbol.entry = entries.filter (·.kind = partition.kind)
  warnings : Event.warnings events = (SymbolEntry.skipped entries).map fun entry =>
    .kindSkipped name entry.name entry.kind.text
  size : module.size + (Event.warnings events).length = entries.length
  kinds : ∀ symbol partition kind, .kindMismatch symbol partition kind ∉ module.check.findings

/-- The event behind those of the entries is no warning. -/
theorem Routed.describes {name : String} (h : Routed (.empty name) entries module events)
    (funcs vars : Nat) :
    Describes name entries module (events ++ [.introspected module.name funcs vars]) := by
  have hpartition : ∀ partition, (module.partition partition).map Symbol.entry =
      entries.filter (·.kind = partition.kind) := by
    intro partition
    rw [h.partition]
    cases partition <;> rfl
  have hwarnings : Event.warnings (events ++ [.introspected module.name funcs vars]) =
      (SymbolEntry.skipped entries).map fun entry =>
        .kindSkipped name entry.name entry.kind.text := by
    have hevents := warnings_map_event name entries
    rw [h.events, Event.warnings, List.filter_append]
    rw [Event.warnings] at hevents
    exact (congrArg (· ++ _) hevents).trans (List.append_nil _)
  refine ⟨h.name, hpartition, hwarnings, ?_, ?_⟩
  · -- the three parts of the entries add up
    have hfuncs := congrArg List.length (hpartition .funcs)
    have hvars := congrArg List.length (hpartition .vars)
    have hall := SymbolEntry.length_eq entries
    simp only [List.length_map, Module.partition] at hfuncs hvars
    rw [hwarnings, Module.size, hfuncs, hvars, List.length_map, hall]
  · -- a symbol of another kind would come from an entry of another kind
    intro name partition kind hfinding
    obtain ⟨symbol, hsymbol, -, rfl, hne⟩ := Module.kindMismatch_mem_check_iff.mp hfinding
    have hentry := List.mem_map_of_mem (f := Symbol.entry) hsymbol
    rw [hpartition] at hentry
    exact hne (of_decide_eq_true (List.mem_filter.mp hentry).2)

theorem introspect_of_named (Fault : Type) (name : String)
    (hnamed : ∀ entry ∈ entries, entry.name ≠ "") :
    ∃ module, (introspect name (.ok entries : Except Fault (List SymbolEntry))).value =
        .ok module ∧
      Describes name entries module
        (introspect name (.ok entries : Except Fault (List SymbolEntry))).events := by
  obtain ⟨module, hvalue, hrouted⟩ := exists_routed Fault (.empty name) hnamed
  refine ⟨module, ?_, ?_⟩
  · rw [introspect, Logged.bind_value, hvalue]
    rfl
  · rw [introspect, Logged.bind_events, hvalue]
    exact hrouted.describes _ _

theorem introspect_of_unnamed (Fault : Type) (name : String)
    (hunnamed : ∃ entry ∈ entries, entry.name = "") :
    (introspect name (.ok entries : Except Fault (List SymbolEntry))).value =
      .error .emptyName := by
  rw [introspect, Logged.bind_value, routeAll_of_unnamed hunnamed]
  rfl

/-- Introspection fails for want of a name exactly if some entry has none; otherwise it divides the
entries among the partitions and the warnings.  What the discovery fails with is passed on. -/
theorem introspect_discovered (Fault : Type) (name : String) :
    (∀ entries : List SymbolEntry,
      ((introspect name (.ok entries : Except Fault (List SymbolEntry))).value =
          .error .emptyName ↔ ∃ entry ∈ entries, entry.name = "") ∧
        ((∀ entry ∈ entries, entry.name ≠ "") →
          ∃ module, (introspect name (.ok entries : Except Fault (List SymbolEntry))).value =
              .ok module ∧
            Describes name entries module
              (introspect name (.ok entries : Except Fault (List SymbolEntry))).events)) ∧
      ∀ fault : Fault, introspect name (.error fault) = ⟨.error (.discovery fault), []⟩ := by
  refine ⟨fun entries => ⟨⟨fun hvalue => ?_, introspect_of_unnamed Fault name⟩,
    introspect_of_named Fault name⟩, fun fault => rfl⟩
  by_contra hnone
  obtain ⟨module, hmodule, -⟩ := introspect_of_named Fault name fun entry hentry hname =>
    hnone ⟨entry, hentry, hname⟩
  rw [hmodule] at hvalue
  contradiction

/-- Entries of several kinds in no order, one of a kind that only looks like a function's. -/
def mixedSample : List SymbolEntry :=
  [⟨"PI", .variable, "", "float"⟩, ⟨"Point", .ofText "class", "", ""⟩,
    ⟨"add", .function, "Adds.", "(a, b)"⟩, ⟨"odd", .other "function", "", "()"⟩,
    ⟨"E", .variable, "", "float"⟩, ⟨"add", .function, "", "()"⟩]

/-- The last entry of a longer list has neither a name nor a partition. -/
theorem introspect_mixedSample :
    (∀ entry ∈ mixedSample, entry.name ≠ "") ∧
      (∃ module, (introspect "m" (.ok mixedSample : Except Empty (List SymbolEntry))).value =
          .ok module ∧
        Describes "m" mixedSample module
          (introspect "m" (.ok mixedSample : Except Empty (List SymbolEntry))).events) ∧
      (introspect "m" (.ok (mixedSample ++ [⟨"", .other "class", "", ""⟩]) :
        Except Empty (List SymbolEntry))).value = .error .emptyName := by
  have hnamed : ∀ entry ∈ mixedSample, entry.name ≠ "" := by decide
  have hentries := (introspect_discovered Empty "m").1
  refine ⟨hnamed, (hentries mixedSample).2 hnamed, ?_⟩
  exact (hentries (mixedSample ++ [_])).1.mpr ⟨⟨"", .other "class", "", ""⟩, by simp, rfl⟩

end Introspection

end ModuleSurface
