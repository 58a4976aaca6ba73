import Mathlib.Data.List.Count
import Mathlib.Data.List.Induction
import Mathlib.Data.List.Nodup
import Mathlib.Data.List.Perm.Basic
import ModuleSurface.Consistency

/-!
# Consistency — the findings of a module, said by occurrences alone

`Describes` says which findings a module has and in which order, without the tally that counts
names and without the names that have been told already.  The report of a module is the one list
that is so described, and it is empty if and only if the module is consistent
(`Module.findings_check_iff`).
-/

namespace ModuleSurface

/-! ## 1. Names in the order of their first occurrences -/

/-- Whether the names are the wanted ones of a list, each once, in the order of their first
occurrences there. -/
structure FirstsOf (wanted : String → Prop) (names chosen : List String) : Prop where
  mem_iff : ∀ name, name ∈ chosen ↔ name ∈ names ∧ wanted name
  ordered : chosen.Pairwise fun name later => names.idxOf name < names.idxOf later

namespace FirstsOf

variable {wanted : String → Prop} {names chosen others : List String} {name : String}

theorem nil (wanted : String → Prop) : FirstsOf wanted [] [] :=
  ⟨by simp, .nil⟩

theorem nodup (h : FirstsOf wanted names chosen) : chosen.Nodup := by
  apply h.ordered.imp
  intro name later hlt heq
  rw [heq] at hlt
  omega

/-- There is one such list only. -/
theorem eq (h : FirstsOf wanted names chosen) (h' : FirstsOf wanted names others) :
    chosen = others := by
  apply List.Perm.eq_of_pairwise _ h.ordered h'.ordered
  · rw [List.perm_ext_iff_of_nodup h.nodup h'.nodup]
    intro name
    rw [h.mem_iff, h'.mem_iff]
  · intro name later _ _ hlt hgt
    omega

theorem eq_nil_iff (h : FirstsOf wanted names chosen) :
    chosen = [] ↔ ∀ name ∈ names, ¬ wanted name := by
  rw [List.eq_nil_iff_forall_not_mem]
  simp only [h.mem_iff, not_and]

theorem congr {wanted' : String → Prop} (h : FirstsOf wanted names chosen)
    (hwanted : ∀ name ∈ names, wanted name ↔ wanted' name) : FirstsOf wanted' names chosen := by
  refine ⟨fun name => ?_, h.ordered⟩
  rw [h.mem_iff]
  exact and_congr_right (hwanted name)

/-- Those that are wanted for one more reason are found among the ones there are. -/
theorem filter (h : FirstsOf wanted names chosen) (also : String → Prop) [DecidablePred also] :
    FirstsOf (fun name => wanted name ∧ also name) names (chosen.filter also) := by
  refine ⟨fun name => ?_, h.ordered.filter _⟩
  rw [List.mem_filter, h.mem_iff, decide_eq_true_eq, and_assoc]

/-- The order stays when the first occurrences of all chosen names move by as much. -/
theorem ordered_of_shift (h : FirstsOf wanted names chosen) {names' : List String} (k : Nat)
    (hshift : ∀ name ∈ chosen, names'.idxOf name = names.idxOf name + k) :
    chosen.Pairwise fun name later => names'.idxOf name < names'.idxOf later := by
  apply h.ordered.imp_of_mem
  intro first later hfirst hlater hlt
  rw [hshift first hfirst, hshift later hlater]
  omega

theorem idxOf_concat (h : FirstsOf wanted names chosen) (last : String) :
    ∀ name ∈ chosen, (names ++ [last]).idxOf name = names.idxOf name := by
  intro name hname
  exact List.idxOf_append_of_mem ((h.mem_iff name).mp hname).1

/-! The list of names grows at its end, or at its start. -/

theorem concat_of_mem (h : FirstsOf wanted names chosen) (hname : name ∈ names) :
    FirstsOf wanted (names ++ [name]) chosen := by
  constructor
  · intro other
    rw [h.mem_iff, List.mem_append, List.mem_singleton]
    constructor
    · exact fun hother => ⟨.inl hother.1, hother.2⟩
    · exact fun hother => ⟨hother.1.elim id fun heq => heq ▸ hname, hother.2⟩
  · exact h.ordered_of_shift 0 (h.idxOf_concat name)

theorem concat_of_not_mem (h : FirstsOf wanted names chosen) (hname : name ∉ names)
    (hwanted : wanted name) : FirstsOf wanted (names ++ [name]) (chosen ++ [name]) := by
  constructor
  · intro other
    rw [List.mem_append, h.mem_iff, List.mem_append, List.mem_singleton, or_and_right]
    refine or_congr_right ⟨fun heq => ⟨heq, heq ▸ hwanted⟩, And.left⟩
  · rw [List.pairwise_append]
    refine ⟨h.ordered_of_shift 0 (h.idxOf_concat name), List.pairwise_singleton _ _, ?_⟩
    -- what stands at the end has all others before it
    intro first hfirst last hlast
    have hlt := List.idxOf_lt_length_iff.mpr ((h.mem_iff first).mp hfirst).1
    rw [List.mem_singleton.mp hlast, h.idxOf_concat name first hfirst,
      List.idxOf_append_of_notMem hname]
    omega

theorem cons_of_not_wanted (h : FirstsOf wanted names chosen) (hname : ¬ wanted name) :
    FirstsOf wanted (name :: names) chosen := by
  constructor
  · intro other
    rw [h.mem_iff, List.mem_cons, or_and_right]
    constructor
    · exact .inr
    · exact fun hother => hother.resolve_left fun heq => hname (heq.1 ▸ heq.2)
  · apply h.ordered_of_shift 1
    intro other hother
    apply List.idxOf_cons_ne
    rintro rfl
    exact hname ((h.mem_iff name).mp hother).2

theorem cons_of_wanted (h : FirstsOf (fun other => wanted other ∧ other ≠ name) names chosen)
    (hname : wanted name) : FirstsOf wanted (name :: names) (name :: chosen) := by
  have hne : ∀ other ∈ chosen, name ≠ other := fun other hother =>
    (((h.mem_iff other).mp hother).2.2).symm
  constructor
  · intro other
    rw [List.mem_cons, h.mem_iff, List.mem_cons]
    by_cases heq : other = name
    · simp [heq, hname]
    · simp [heq]
  · rw [List.pairwise_cons]
    constructor
    · intro later hlater
      rw [List.idxOf_cons_self, List.idxOf_cons_ne _ (hne later hlater)]
      omega
    · apply h.ordered_of_shift 1
      exact fun other hother => List.idxOf_cons_ne _ (hne other hother)

end FirstsOf

/-! ## 2. Counting -/

namespace Tally

/-- Whether a tally has each of some names once, in the order of first occurrences, with the
number of its occurrences. -/
structure Counts (tally : Tally) (names : List String) : Prop where
  keys : FirstsOf (fun _ => True) names (tally.map Prod.fst)
  counts : ∀ entry ∈ tally, entry.2 = names.count entry.1

variable {tally : Tally} {names : List String} {name : String}

theorem map_fst_count (name : String) (tally : Tally) :
    (tally.count name).map Prod.fst =
      if name ∈ tally.map Prod.fst then tally.map Prod.fst else tally.map Prod.fst ++ [name] := by
  induction tally with
  | nil => rfl
  | cons entry rest ih =>
    obtain ⟨known, n⟩ := entry
    rw [count]
    by_cases heq : known = name
    · simp [heq]
    · rw [if_neg heq, List.map_cons, ih]
      have hne : name ≠ known := fun h => heq h.symm
      simp only [List.map_cons, List.mem_cons, hne, false_or]
      split <;> rfl

/-- The name that is counted has one more occurrence, and the others as many as before. -/
theorem mem_count (hkeys : (tally.map Prod.fst).Nodup) {entry : String × Nat}
    (h : entry ∈ tally.count name) :
    entry.1 ≠ name ∧ entry ∈ tally ∨ (∃ n, (name, n) ∈ tally ∧ entry = (name, n + 1)) ∨
      name ∉ tally.map Prod.fst ∧ entry = (name, 1) := by
  induction tally with
  | nil => exact .inr (.inr ⟨by simp, List.mem_singleton.mp h⟩)
  | cons first rest ih =>
    obtain ⟨known, n⟩ := first
    rw [List.map_cons, List.nodup_cons] at hkeys
    rw [count] at h
    by_cases heq : known = name
    · subst heq
      rw [if_pos rfl, List.mem_cons] at h
      rcases h with h | h
      · exact .inr (.inl ⟨n, List.mem_cons_self, h⟩)
      · -- a name has one entry only
        refine .inl ⟨fun hentry => hkeys.1 ?_, List.mem_cons_of_mem _ h⟩
        exact List.mem_map.mpr ⟨entry, h, hentry⟩
    · rw [if_neg heq, List.mem_cons] at h
      rcases h with h | h
      · exact .inl ⟨by rw [h]; exact heq, by rw [h]; exact List.mem_cons_self⟩
      · rcases ih hkeys.2 h with ⟨hne, hmem⟩ | ⟨m, hmem, hentry⟩ | ⟨hnew, hentry⟩
        · exact .inl ⟨hne, List.mem_cons_of_mem _ hmem⟩
        · exact .inr (.inl ⟨m, List.mem_cons_of_mem _ hmem, hentry⟩)
        · refine .inr (.inr ⟨?_, hentry⟩)
          rw [List.map_cons, List.mem_cons]
          exact fun hmem => hmem.elim (fun h => heq h.symm) hnew

theorem Counts.count (h : tally.Counts names) (name : String) :
    (tally.count name).Counts (names ++ [name]) := by
  have hkeys : ∀ other, other ∈ tally.map Prod.fst ↔ other ∈ names := fun other => by
    rw [h.keys.mem_iff, and_true]
  -- a name that was counted before keeps its place, and a new one comes last
  constructor
  · rw [map_fst_count]
    split
    · rename_i hknown
      exact h.keys.concat_of_mem ((hkeys name).mp hknown)
    · rename_i hnew
      exact h.keys.concat_of_not_mem (fun hmem => hnew ((hkeys name).mpr hmem)) trivial
  · intro entry hentry
    rw [List.count_append]
    rcases mem_count h.keys.nodup hentry with ⟨hne, hmem⟩ | ⟨n, hmem, rfl⟩ | ⟨hnew, rfl⟩
    · rw [h.counts entry hmem, List.count_singleton, if_neg (by simpa using hne.symm)]
      omega
    · have hn : n = names.count name := h.counts (name, n) hmem
      rw [List.count_singleton_self, ← hn]
    · rw [hkeys] at hnew
      rw [List.count_singleton_self, List.count_eq_zero.mpr hnew]

-- From the right, since the tally grows where the names do.
theorem counts_ofNames (names : List String) : (ofNames names).Counts names := by
  induction names using List.reverseRecOn with
  | nil => exact ⟨.nil _, by simp [ofNames]⟩
  | append_singleton names name ih =>
    rw [ofNames, List.foldl_append]
    exact ih.count name

/-- What is told of the names that a tally has more than once is told of their names alone. -/
theorem filterMap_repeated (hcounts : ∀ entry ∈ tally, entry.2 = names.count entry.1)
    (finding : String → Nat → Finding) :
    (tally.filterMap fun (name, count) =>
        if count > 1 then some (finding name count) else none) =
      ((tally.map Prod.fst).filter (2 ≤ names.count ·)).map fun name =>
        finding name (names.count name) := by
  induction tally with
  | nil => rfl
  | cons entry rest ih =>
    obtain ⟨name, n⟩ := entry
    obtain ⟨hn, hrest⟩ := List.forall_mem_cons.mp hcounts
    simp only at hn
    simp only [List.filterMap_cons, List.map_cons, List.filter_cons, ih hrest, hn]
    by_cases hmany : names.count name > 1
    · have hmany' : 2 ≤ names.count name := hmany
      simp [hmany, hmany']
    · have hmany' : ¬ 2 ≤ names.count name := hmany
      simp [hmany, hmany']

end Tally

/-! ## 3. The findings of a partition, and the names in both -/

namespace Module

def names (module : Module) (partition : Partition) : List String :=
  (module.partition partition).map (·.name)

/-- What a partition is told of: its symbols of other kinds, and then the names it has more than
once. -/
def findingsOf (module : Module) (partition : Partition) (repeated : List String) : List Finding :=
  ((module.partition partition).filter (·.kind ≠ partition.kind)).map
      (fun symbol => .kindMismatch symbol.name partition symbol.kind) ++
    repeated.map fun name => .duplicateName name partition ((module.names partition).count name)

/-- Whether a list is that of the findings of a module: those of the functions, those of the
variables, and one for each name of a variable that is also the name of a function. -/
def Describes (module : Module) (findings : List Finding) : Prop :=
  ∃ (repeated : Partition → List String) (shared : List String),
    (∀ partition, FirstsOf (fun name => 2 ≤ (module.names partition).count name)
      (module.names partition) (repeated partition)) ∧
    FirstsOf (· ∈ module.names .funcs) (module.names .vars) shared ∧
    findings = module.findingsOf .funcs (repeated .funcs) ++
      module.findingsOf .vars (repeated .vars) ++ shared.map .crossPartition

/-- Whether there is nothing to find fault with: no name comes twice, in one partition or in both,
and every symbol has the kind of its partition. -/
structure IsConsistent (module : Module) : Prop where
  distinct : ∀ partition, (module.names partition).Nodup
  apart : ∀ name ∈ module.names .funcs, name ∉ module.names .vars
  kinds : ∀ partition, ∀ symbol ∈ module.partition partition, symbol.kind = partition.kind

theorem kindMismatches_eq (module : Module) (partition : Partition) :
    module.kindMismatches partition =
      ((module.partition partition).filter (·.kind ≠ partition.kind)).map
        fun symbol => .kindMismatch symbol.name partition symbol.kind := by
  rw [kindMismatches]
  induction module.partition partition with
  | nil => rfl
  | cons symbol rest ih =>
    by_cases hkind : symbol.kind = partition.kind <;> simp [hkind, ih]

/-- The names that a partition has more than once, in the order of the tally. -/
theorem exists_duplicateNames (module : Module) (partition : Partition) :
    ∃ repeated, FirstsOf (fun name => 2 ≤ (module.names partition).count name)
        (module.names partition) repeated ∧
      module.duplicateNames partition = repeated.map fun name =>
        .duplicateName name partition ((module.names partition).count name) := by
  have htally := Tally.counts_ofNames (module.names partition)
  exact ⟨_, (htally.keys.filter (2 ≤ (module.names partition).count ·)).congr (by simp),
    Tally.filterMap_repeated htally.counts fun name count => .duplicateName name partition count⟩

-- What has been told counts as not wanted, and the head of the list joins it when it is told.
theorem firstsOf_sharedNames (others told names : List String) :
    FirstsOf (fun name => name ∈ others ∧ name ∉ told) names (sharedNames others told names) := by
  induction names generalizing told with
  | nil => exact .nil _
  | cons name names ih =>
    rw [sharedNames]
    split
    · rename_i hcond
      have hname : name ∈ others ∧ name ∉ told := by simpa using hcond
      refine FirstsOf.cons_of_wanted ((ih (name :: told)).congr fun other _ => ?_) hname
      rw [List.mem_cons, not_or, and_assoc]
      exact and_congr_right fun _ => and_comm
    · rename_i hcond
      exact (ih told).cons_of_not_wanted (by simpa using hcond)

/-! ## 4. The report -/

/-- The report tells of a kind exactly where a symbol has it in the other partition. -/
theorem kindMismatch_mem_check_iff {module : Module} {name : String} {partition : Partition}
    {kind : Kind} :
    .kindMismatch name partition kind ∈ module.check.findings ↔
      ∃ symbol ∈ module.partition partition, symbol.name = name ∧ symbol.kind = kind ∧
        kind ≠ partition.kind := by
  -- of the three sources of findings only the first tells of kinds
  have hduplicate : ∀ other, Finding.kindMismatch name partition kind ∉
      module.duplicateNames other := by
    intro other hmem
    obtain ⟨⟨repeated, count⟩, -, hfinding⟩ := List.mem_filterMap.mp hmem
    simp at hfinding
  have hcross : Finding.kindMismatch name partition kind ∉ module.crossPartitionNames := by
    intro hmem
    obtain ⟨shared, -, hfinding⟩ := List.mem_map.mp hmem
    contradiction
  have hown : ∀ other, Finding.kindMismatch name partition kind ∈ module.kindMismatches other ↔
      other = partition ∧ ∃ symbol ∈ module.partition partition, symbol.name = name ∧
        symbol.kind = kind ∧ kind ≠ partition.kind := by
    intro other
    rw [kindMismatches_eq, List.mem_map]
    constructor
    · rintro ⟨symbol, hsymbol, hfinding⟩
      obtain ⟨rfl, rfl, rfl⟩ := Finding.kindMismatch.inj hfinding
      obtain ⟨hmem, hne⟩ := List.mem_filter.mp hsymbol
      exact ⟨rfl, symbol, hmem, rfl, rfl, by simpa using hne⟩
    · rintro ⟨rfl, symbol, hmem, rfl, rfl, hne⟩
      exact ⟨symbol, List.mem_filter.mpr ⟨hmem, by simpa using hne⟩, rfl⟩
  simp only [check, List.mem_append, hown, hduplicate, hcross, or_false]
  cases partition <;> simp

theorem exists_describes (module : Module) : module.Describes module.check.findings := by
  choose twice htwice hduplicate using module.exists_duplicateNames
  have hshared := firstsOf_sharedNames (module.names .funcs) [] (module.names .vars)
  refine ⟨twice, _, htwice, hshared.congr (by simp), ?_⟩
  rw [findingsOf, findingsOf, ← kindMismatches_eq, ← kindMismatches_eq, ← hduplicate, ← hduplicate]
  rfl

/-- A module is described by one list only, since its names can be put in order in one way. -/
theorem Describes.eq {module : Module} {findings others : List Finding}
    (h : module.Describes findings) (h' : module.Describes others) : findings = others := by
  obtain ⟨repeated, shared, hrepeated, hshared, rfl⟩ := h
  obtain ⟨repeated', shared', hrepeated', hshared', rfl⟩ := h'
  rw [hshared.eq hshared', (hrepeated .funcs).eq (hrepeated' .funcs),
    (hrepeated .vars).eq (hrepeated' .vars)]

theorem findingsOf_eq_nil_iff {module : Module} {partition : Partition} {repeated : List String}
    (hrepeated : FirstsOf (fun name => 2 ≤ (module.names partition).count name)
      (module.names partition) repeated) :
    module.findingsOf partition repeated = [] ↔
      (∀ symbol ∈ module.partition partition, symbol.kind = partition.kind) ∧
        (module.names partition).Nodup := by
  rw [findingsOf, List.append_eq_nil_iff, List.map_eq_nil_iff, List.map_eq_nil_iff,
    List.filter_eq_nil_iff, hrepeated.eq_nil_iff, List.nodup_iff_count_le_one]
  refine and_congr (by simp) ⟨fun h name => ?_, fun h name _ => ?_⟩
  · by_cases hname : name ∈ module.names partition
    · have := h name hname
      omega
    · rw [List.count_eq_zero.mpr hname]
      omega
  · have := h name
    omega

theorem Describes.eq_nil_iff {module : Module} {findings : List Finding}
    (h : module.Describes findings) : findings = [] ↔ module.IsConsistent := by
  obtain ⟨repeated, shared, hrepeated, hshared, rfl⟩ := h
  rw [List.append_eq_nil_iff, List.append_eq_nil_iff, List.map_eq_nil_iff, hshared.eq_nil_iff,
    findingsOf_eq_nil_iff (hrepeated .funcs), findingsOf_eq_nil_iff (hrepeated .vars)]
  constructor
  · rintro ⟨⟨⟨hkindsFuncs, hfuncs⟩, hkindsVars, hvars⟩, hapart⟩
    refine ⟨?_, fun name hfunc hvar => hapart name hvar hfunc, ?_⟩
    · intro partition
      cases partition with
      | funcs => exact hfuncs
      | vars => exact hvars
    · intro partition
      cases partition with
      | funcs => exact hkindsFuncs
      | vars => exact hkindsVars
  · intro h
    exact ⟨⟨⟨h.kinds .funcs, h.distinct .funcs⟩, h.kinds .vars, h.distinct .vars⟩,
      fun name hvar hfunc => h.apart name hfunc hvar⟩

/-- The report of a module is the list that describes it, and is clean if and only if the module is
consistent. -/
theorem findings_check_iff (module : Module) :
    (∀ findings, module.check.findings = findings ↔ module.Describes findings) ∧
      (module.check.isClean = true ↔ module.IsConsistent) := by
  have hdescribes := module.exists_describes
  constructor
  · intro findings
    constructor
    · intro h
      exact h ▸ hdescribes
    · exact hdescribes.eq
  · rw [ConsistencyReport.isClean, List.isEmpty_iff, hdescribes.eq_nil_iff]

end Module

end ModuleSurface
