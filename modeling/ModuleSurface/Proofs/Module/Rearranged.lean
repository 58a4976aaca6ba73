import ModuleSurface.Proofs.Module.Consistency

/-!
# Rearranged — what the findings of a module hang on

The order of the symbols in a partition settles the order of the findings and nothing else, and the
documentation and signatures settle nothing at all.  A symbol that is appended takes no finding
away: the one finding that changes is that of its own name, which then occurs once more often
(`Module.check_rearranged`).
-/

namespace ModuleSurface

/-! ## 1. Chosen names of related lists -/

namespace FirstsOf

variable {wanted wanted' : String → Prop} {names names' chosen others : List String}

/-- Lists with the same names in another order have the same chosen ones in another order. -/
theorem perm (h : FirstsOf wanted names chosen) (h' : FirstsOf wanted' names' others)
    (hsame : ∀ name, name ∈ names ∧ wanted name ↔ name ∈ names' ∧ wanted' name) :
    chosen.Perm others := by
  rw [List.perm_ext_iff_of_nodup h.nodup h'.nodup]
  intro name
  rw [h.mem_iff, h'.mem_iff, hsame]

/-- Names that come later move none of those that were chosen before. -/
theorem sublist_of_append {more : List String} (h : FirstsOf wanted names chosen)
    (h' : FirstsOf wanted' (names ++ more) others)
    (hwanted : ∀ name ∈ names, wanted name → wanted' name) : chosen.Sublist others := by
  have hkept : FirstsOf wanted names (others.filter (· ∈ chosen)) := by
    constructor
    · intro name
      rw [List.mem_filter, decide_eq_true_eq, h.mem_iff, h'.mem_iff, List.mem_append]
      exact ⟨And.right, fun hname => ⟨⟨.inl hname.1, hwanted name hname.1 hname.2⟩, hname⟩⟩
    · apply (h'.ordered.filter _).imp_of_mem
      intro first later hfirst hlater hlt
      -- both stand among the earlier names, where the later ones do not count
      have hold : ∀ name ∈ others.filter (· ∈ chosen),
          (names ++ more).idxOf name = names.idxOf name := by
        intro name hname
        rw [List.mem_filter, decide_eq_true_eq, h.mem_iff] at hname
        exact List.idxOf_append_of_mem hname.2.1
      rwa [hold first hfirst, hold later hlater] at hlt
  rw [h.eq hkept]
  exact List.filter_sublist

end FirstsOf

/-! ## 2. Rearranged modules -/

/-- What the report reads of a symbol. -/
def Symbol.heading (symbol : Symbol) : String × Kind :=
  (symbol.name, symbol.kind)

namespace Module

variable {module other : Module} {partition : Partition} {repeated repeated' : List String}

theorem findingsOf_perm (hsymbols : (other.partition partition).Perm (module.partition partition))
    (h : FirstsOf (fun name => 2 ≤ (module.names partition).count name)
      (module.names partition) repeated)
    (h' : FirstsOf (fun name => 2 ≤ (other.names partition).count name)
      (other.names partition) repeated') :
    (other.findingsOf partition repeated').Perm (module.findingsOf partition repeated) := by
  have hnames : (other.names partition).Perm (module.names partition) := hsymbols.map _
  have hcounts : ∀ name, (other.names partition).count name =
      (module.names partition).count name := hnames.count_eq
  have hrepeated : repeated'.Perm repeated := by
    apply h'.perm h
    intro name
    rw [hnames.mem_iff, hcounts]
  unfold findingsOf
  simp only [hcounts]
  exact ((hsymbols.filter _).map _).append (hrepeated.map _)

theorem findings_perm
    (h : ∀ partition, (other.partition partition).Perm (module.partition partition)) :
    other.check.findings.Perm module.check.findings := by
  obtain ⟨repeated, shared, hrepeated, hshared, hfindings⟩ := module.exists_describes
  obtain ⟨repeated', shared', hrepeated', hshared', hfindings'⟩ := other.exists_describes
  have hboth : shared'.Perm shared := by
    apply hshared'.perm hshared
    intro name
    have hnames : ∀ partition, name ∈ other.names partition ↔ name ∈ module.names partition :=
      fun partition => ((h partition).map _).mem_iff
    rw [hnames, hnames]
  rw [hfindings, hfindings']
  have hfuncs := findingsOf_perm (h .funcs) (hrepeated .funcs) (hrepeated' .funcs)
  have hvars := findingsOf_perm (h .vars) (hrepeated .vars) (hrepeated' .vars)
  exact (hfuncs.append hvars).append (hboth.map _)

/-- The report reads the names and kinds of the symbols and nothing else of them. -/
theorem check_eq_of_heading (hname : other.name = module.name)
    (h : ∀ partition, (other.partition partition).map Symbol.heading =
      (module.partition partition).map Symbol.heading) : other.check = module.check := by
  have hnames : ∀ partition, other.names partition = module.names partition := by
    intro partition
    have hfst := congrArg (List.map Prod.fst) (h partition)
    rwa [List.map_map, List.map_map] at hfst
  have hkinds : ∀ partition, other.kindMismatches partition = module.kindMismatches partition := by
    intro partition
    -- the one finding that reads symbols reads their headings
    have hread : ∀ module : Module, module.kindMismatches partition =
        ((module.partition partition).map Symbol.heading).filterMap fun (name, kind) =>
          if kind = partition.kind then none else some (.kindMismatch name partition kind) := by
      intro module
      rw [List.filterMap_map]
      rfl
    rw [hread, hread, h]
  have hduplicates : ∀ partition, other.duplicateNames partition =
      module.duplicateNames partition := by
    intro partition
    show (Tally.ofNames (other.names partition)).filterMap _ = _
    rw [hnames]
    rfl
  have hcross : other.crossPartitionNames = module.crossPartitionNames := by
    show (sharedNames (other.names .funcs) [] (other.names .vars)).map _ = _
    rw [hnames, hnames]
    rfl
  simp only [check, hname, hkinds, hduplicates, hcross]

end Module

/-! ## 3. Longer modules -/

/-- A finding when one more symbol of a name stands in a partition: that of the name itself tells
of one occurrence more. -/
def Finding.raised (partition : Partition) (name : String) : Finding → Finding
  | duplicateName repeated place count =>
      if repeated = name ∧ place = partition then duplicateName repeated place (count + 1)
      else duplicateName repeated place count
  | finding => finding

namespace Module

def appendEach (module : Module) (additions : List (Partition × Symbol)) : Module :=
  additions.foldl (fun module (partition, symbol) => (module.append partition symbol).value) module

variable (module : Module) (partition place : Partition) (symbol : Symbol)

def added : List Symbol :=
  if place = partition then [symbol] else []

theorem partition_push_eq :
    (module.push partition symbol).partition place =
      module.partition place ++ added partition place symbol := by
  rw [partition_push, added]
  split <;> simp

theorem names_push_eq :
    (module.push partition symbol).names place =
      module.names place ++ (added partition place symbol).map (·.name) := by
  rw [names, partition_push_eq, List.map_append]
  rfl

theorem raised_duplicateName (name : String) :
    Finding.raised partition symbol.name
        (.duplicateName name place ((module.names place).count name)) =
      .duplicateName name place (((module.push partition symbol).names place).count name) := by
  rw [names_push_eq, List.count_append, added, Finding.raised]
  by_cases hplace : place = partition
  · by_cases hname : name = symbol.name
    · simp [hplace, hname]
    · simp [hplace, hname, Ne.symm hname]
  · simp [hplace]

variable {module partition place symbol} {repeated repeated' : List String}

theorem findingsOf_push_sublist
    (h : FirstsOf (fun name => 2 ≤ (module.names place).count name) (module.names place) repeated)
    (h' : FirstsOf (fun name => 2 ≤ ((module.push partition symbol).names place).count name)
      ((module.push partition symbol).names place) repeated') :
    ((module.findingsOf place repeated).map (Finding.raised partition symbol.name)).Sublist
      ((module.push partition symbol).findingsOf place repeated') := by
  have hraised : ∀ name, _ := module.raised_duplicateName partition place symbol
  have hrepeated : repeated.Sublist repeated' := by
    rw [names_push_eq] at h'
    apply h.sublist_of_append h'
    intro name _ htwice
    rw [List.count_append]
    omega
  -- findings of kinds stay as they are, those of names go up where the symbol has the name
  rw [findingsOf, findingsOf, List.map_append, List.map_map, List.map_map, partition_push_eq,
    List.filter_append, List.map_append]
  apply List.Sublist.append
  · exact List.sublist_append_left _ _
  · simp only [Function.comp_def, hraised]
    exact hrepeated.map _

/-- An appended symbol takes no finding away. -/
theorem findings_push_sublist (module : Module) (partition : Partition) (symbol : Symbol) :
    (module.check.findings.map (Finding.raised partition symbol.name)).Sublist
      (module.push partition symbol).check.findings := by
  obtain ⟨repeated, shared, hrepeated, hshared, hfindings⟩ := module.exists_describes
  obtain ⟨repeated', shared', hrepeated', hshared', hfindings'⟩ :=
    (module.push partition symbol).exists_describes
  have hboth : shared.Sublist shared' := by
    rw [names_push_eq, names_push_eq] at hshared'
    apply hshared.sublist_of_append hshared'
    exact fun name _ hname => List.mem_append_left _ hname
  rw [hfindings, hfindings', List.map_append, List.map_append, List.map_map]
  have hfuncs := findingsOf_push_sublist (hrepeated .funcs) (hrepeated' .funcs)
  have hvars := findingsOf_push_sublist (hrepeated .vars) (hrepeated' .vars)
  exact (hfuncs.append hvars).append (hboth.map _)

theorem isClean_eq_false_of_sublist {report report' : ConsistencyReport} (f : Finding → Finding)
    (h : (report.findings.map f).Sublist report'.findings) (hfindings : report.isClean = false) :
    report'.isClean = false := by
  have hlength := h.length_le
  rw [ConsistencyReport.isClean, List.isEmpty_eq_false_iff, ← List.length_pos_iff] at hfindings ⊢
  rw [List.length_map] at hlength
  omega

theorem isClean_appendEach {module : Module} (h : module.check.isClean = false)
    (additions : List (Partition × Symbol)) :
    (module.appendEach additions).check.isClean = false := by
  induction additions generalizing module with
  | nil => exact h
  | cons addition additions ih =>
    obtain ⟨partition, symbol⟩ := addition
    apply ih
    exact isClean_eq_false_of_sublist _ (module.findings_push_sublist partition symbol) h

/-- Rearranging the symbols rearranges the findings, documentation and signatures make no
difference, and no appended symbol takes a finding away. -/
theorem check_rearranged (module : Module) :
    (∀ other : Module,
      (∀ partition, (other.partition partition).Perm (module.partition partition)) →
        other.check.findings.Perm module.check.findings) ∧
      (∀ other : Module, other.name = module.name →
        (∀ partition, (other.partition partition).map Symbol.heading =
          (module.partition partition).map Symbol.heading) → other.check = module.check) ∧
      (∀ partition symbol,
        (module.check.findings.map (Finding.raised partition symbol.name)).Sublist
          (module.append partition symbol).value.check.findings) ∧
      (module.check.isClean = false → ∀ additions,
        (module.appendEach additions).check.isClean = false) :=
  ⟨fun _ => findings_perm, fun _ => check_eq_of_heading, module.findings_push_sublist,
    isClean_appendEach⟩

/-- A module with a name that comes twice, a kind in the wrong place and a name in both places. -/
def tangledSample : Module :=
  ⟨"pkg.m", [⟨"blend", .function, "", "(a)", by decide⟩, ⟨"DEPTH", .variable, "", "", by decide⟩,
    ⟨"blend", .function, "Blends.", "(a, b)", by decide⟩],
    [⟨"DEPTH", .variable, "", "int", by decide⟩]⟩

def turnedSample : Module :=
  { tangledSample with funcs := tangledSample.funcs.reverse }

def bareSample : Module :=
  { tangledSample with
    funcs := tangledSample.funcs.map fun symbol => { symbol with doc := "", sig := "" }
    vars := tangledSample.vars.map fun symbol => { symbol with doc := "", sig := "" } }

theorem check_rearranged_tangledSample :
    turnedSample.check.findings.Perm tangledSample.check.findings ∧
      bareSample.check = tangledSample.check ∧ tangledSample.check.isClean = false ∧
      (tangledSample.appendEach
        [(.vars, ⟨"blend", .variable, "", "", by decide⟩)]).check.isClean = false := by
  obtain ⟨hperm, hbare, -, hclean⟩ := check_rearranged tangledSample
  have hfound : tangledSample.check.isClean = false := by decide
  refine ⟨hperm turnedSample fun partition => ?_, hbare bareSample rfl fun partition => ?_, hfound,
    hclean hfound _⟩
  · cases partition with
    | funcs => exact List.reverse_perm _
    | vars => exact .refl _
  · cases partition <;> rfl

end Module

end ModuleSurface
