import ModuleSurface.Command.Program

/-!
# Ends — what a command can come to

A command ends in one of a few ways (`Command.Ends`): its settings or its document cannot be had,
it has something to object to, a file cannot be written, or it is done.  Each way comes with what
led to it and with the files that it leaves behind, and every run ends in one of them
(`Invocation.ends`).
-/

namespace ModuleSurface

namespace Command

/-! ## 1. What commands work on -/

def file? : Command → Option String
  | .check file _ => some file
  | .format file _ _ => some file
  | .render file _ _ _ _ => some file
  | .init _ _ => none

/-- Whether settings will do for a command.  Only a rendering looks again at what it is given. -/
def Accepts : Command → Config → Prop
  | .render _ format? output? _ noDocs, config =>
      (config.override (renderOverrides format? output? noDocs)).validate = .ok ()
  | _, _ => True

/-- The text that a document is formatted to: compact if that is asked for or set. -/
def formatted (compact : Bool) (config : Config) (document : Document) : String :=
  let layout : Json.Layout :=
    if compact = true ∨ config.output.pretty = false then .compact else .pretty
  (Exchange.canonicalText layout document.module).value

/-- Whether a command has its settings and its document. -/
structure Begins (tree : FileTree) (config? : Option String) (command : Command) (file : String)
    (config : Config) (document : Document) : Prop where
  file_eq : command.file? = some file
  settings : (Config.load tree config?).value = .ok config
  accepts : command.Accepts config
  loaded : (Document.load tree file).value = .ok document

/-! ## 2. How commands end -/

/-- How a command can end, and the files that it leaves behind. -/
inductive Ends (tree : FileTree) (config? : Option String) :
    Command → Except CommandFault Unit → FileTree → Prop
  /-- There are no settings. -/
  | unset {command : Command} {file : String} {fault : ConfigFault}
      (hfile : command.file? = some file)
      (hconfig : (Config.load tree config?).value = .error fault) :
      Ends tree config? command (.error (.config fault)) tree
  /-- What the command line gives in place of settings is refused. -/
  | refused {file : String} {format? output? : Option String} {dryRun noDocs : Bool}
      {config : Config} {fault : ConfigFault}
      (hconfig : (Config.load tree config?).value = .ok config)
      (hfault :
        (config.override (renderOverrides format? output? noDocs)).validate = .error fault) :
      Ends tree config? (.render file format? output? dryRun noDocs) (.error (.config fault)) tree
  /-- There is no document. -/
  | unread {command : Command} {file : String} {config : Config} {fault : LoadFault}
      (hfile : command.file? = some file)
      (hconfig : (Config.load tree config?).value = .ok config) (haccepts : command.Accepts config)
      (hdocument : (Document.load tree file).value = .error fault) :
      Ends tree config? command (.error (.load fault)) tree
  /-- The module of the document has no findings, or they are let pass. -/
  | passed {file : String} {denyWarnings : Bool} {config : Config} {document : Document}
      (hbegins : Begins tree config? (.check file denyWarnings) file config document)
      (hpasses : document.module.check.isClean = true ∨
        denyWarnings = false ∧ config.check.denyWarnings = false) :
      Ends tree config? (.check file denyWarnings) (.ok ()) tree
  /-- The module of the document has findings that are not let pass. -/
  | denied {file : String} {denyWarnings : Bool} {config : Config} {document : Document}
      (hbegins : Begins tree config? (.check file denyWarnings) file config document)
      (hfindings : document.module.check.isClean = false)
      (hdenied : denyWarnings = true ∨ config.check.denyWarnings = true) :
      Ends tree config? (.check file denyWarnings)
        (.error (.objection (.findings document.module.check.findings.length file))) tree
  /-- The text of the document is as it is to be. -/
  | alike {file : String} {compact : Bool} {config : Config} {document : Document}
      (hbegins : Begins tree config? (.format file true compact) file config document)
      (halike : document.text = formatted compact config document) :
      Ends tree config? (.format file true compact) (.ok ()) tree
  /-- The text of the document is not as it is to be. -/
  | unlike {file : String} {compact : Bool} {config : Config} {document : Document}
      (hbegins : Begins tree config? (.format file true compact) file config document)
      (hunlike : document.text ≠ formatted compact config document) :
      Ends tree config? (.format file true compact) (.error (.objection (.notFormatted file))) tree
  /-- The text of the document cannot be put in its place. -/
  | unformatted {file : String} {compact : Bool} {config : Config} {document : Document}
      {fault : WriteFault} {after : FileTree}
      (hbegins : Begins tree config? (.format file false compact) file config document)
      (hwrite : (Output.write false tree file (formatted compact config document)).value =
        (.error fault, after)) :
      Ends tree config? (.format file false compact) (.error (.write fault)) after
  /-- The text of the document is put in its place. -/
  | reformatted {file : String} {compact : Bool} {config : Config} {document : Document}
      {result : WriteResult} {after : FileTree}
      (hbegins : Begins tree config? (.format file false compact) file config document)
      (hwrite : (Output.write false tree file (formatted compact config document)).value =
        (.ok result, after)) :
      Ends tree config? (.format file false compact) (.ok ()) after
  /-- The name of the module gives no path. -/
  | unnamed {file : String} {format? output? : Option String} {dryRun noDocs : Bool}
      {config : Config} {document : Document} {emitter : Emitter} {emitConfig : EmitConfig}
      {fault : EmitFault}
      (hbegins : Begins tree config? (.render file format? output? dryRun noDocs) file config
        document)
      (hselection : Document.selection (config.override (renderOverrides format? output? noDocs)) =
        .ok (emitter, emitConfig))
      (hemit : (emitter.emit emitConfig document.module).value = .error fault) :
      Ends tree config? (.render file format? output? dryRun noDocs) (.error (.emit fault)) tree
  /-- What is rendered cannot be written below the output directory. -/
  | unrendered {file : String} {format? output? : Option String} {dryRun noDocs : Bool}
      {config : Config} {document : Document} {emitter : Emitter} {emitConfig : EmitConfig}
      {emitted : EmittedFile} {fault : WriteFault} {after : FileTree}
      (hbegins : Begins tree config? (.render file format? output? dryRun noDocs) file config
        document)
      (hselection : Document.selection (config.override (renderOverrides format? output? noDocs)) =
        .ok (emitter, emitConfig))
      (hemit : (emitter.emit emitConfig document.module).value = .ok emitted)
      (hwrite : (Output.writeEmitted dryRun tree (output?.getD config.output.dir) emitted).value =
        (.error fault, after)) :
      Ends tree config? (.render file format? output? dryRun noDocs) (.error (.write fault)) after
  /-- What is rendered is written below the output directory, or only shown. -/
  | rendered {file : String} {format? output? : Option String} {dryRun noDocs : Bool}
      {config : Config} {document : Document} {emitter : Emitter} {emitConfig : EmitConfig}
      {emitted : EmittedFile} {result : WriteResult} {after : FileTree}
      (hbegins : Begins tree config? (.render file format? output? dryRun noDocs) file config
        document)
      (hselection : Document.selection (config.override (renderOverrides format? output? noDocs)) =
        .ok (emitter, emitConfig))
      (hemit : (emitter.emit emitConfig document.module).value = .ok emitted)
      (hwrite : (Output.writeEmitted dryRun tree (output?.getD config.output.dir) emitted).value =
        (.ok result, after)) :
      Ends tree config? (.render file format? output? dryRun noDocs) (.ok ()) after
  /-- There is something at the path of the file of settings already. -/
  | standing {output : String} (hexists : tree.pathExists output = true) :
      Ends tree config? (.init output false) (.error (.objection (.configExists output))) tree
  /-- The file of settings cannot be written. -/
  | uncreated {output : String} {force : Bool} {fault : FileFault}
      (hfree : tree.pathExists output = false ∨ force = true)
      (hwrite : tree.writeText output Config.defaultText = .error fault) :
      Ends tree config? (.init output force) (.error (.file fault)) tree
  /-- The file of settings is written. -/
  | created {output : String} {force : Bool} {after : FileTree}
      (hfree : tree.pathExists output = false ∨ force = true)
      (hwrite : tree.writeText output Config.defaultText = .ok after) :
      Ends tree config? (.init output force) (.ok ()) after

/-! ## 3. Every run ends in one of these ways -/

section Values

variable {tree : FileTree} {config? : Option String} {config : Config} {file : String}

theorem settings_of_error {fault : ConfigFault}
    (h : (Config.load tree config?).value = .error fault) (overrides : Overrides) :
    (settings tree config? overrides).value = .error (.config fault) := by
  rw [settings, Logged.bind_value, h]
  rfl

theorem settings_of_ok (h : (Config.load tree config?).value = .ok config)
    (overrides : Overrides) :
    (settings tree config? overrides).value = .ok (config.override overrides) := by
  rw [settings, Logged.bind_value, h]
  rfl

theorem fetch_of_error {fault : LoadFault} (h : (Document.load tree file).value = .error fault) :
    (Document.fetch tree file).value = .error (.load fault) := by
  rw [Document.fetch, Logged.bind_value, h]
  rfl

theorem fetch_of_ok {document : Document} (h : (Document.load tree file).value = .ok document) :
    (Document.fetch tree file).value = .ok document := by
  rw [Document.fetch, Logged.bind_value, h]
  rfl

theorem renderSettings_of_error {overrides : Overrides} {fault : CommandFault}
    (h : (settings tree config? overrides).value = .error fault) :
    (renderSettings tree config? overrides).value = .error fault := by
  rw [renderSettings, Logged.bind_value, h]
  rfl

theorem renderSettings_of_refused {overrides : Overrides} {fault : ConfigFault}
    (h : (settings tree config? overrides).value = .ok config)
    (hvalid : config.validate = .error fault) :
    (renderSettings tree config? overrides).value = .error (.config fault) := by
  rw [renderSettings, Logged.bind_value, h, Except.bind, hvalid]
  rfl

theorem renderSettings_of_valid {overrides : Overrides}
    (h : (settings tree config? overrides).value = .ok config)
    (hvalid : config.validate = .ok ()) :
    (renderSettings tree config? overrides).value = .ok config := by
  rw [renderSettings, Logged.bind_value, h, Except.bind, hvalid]
  rfl

end Values

theorem selection_of_validate {config : Config} (h : config.validate = .ok ()) :
    ∃ emitter emitConfig, Document.selection config = .ok (emitter, emitConfig) := by
  unfold Config.validate at h
  unfold Document.selection Config.emitter Config.emitConfig
  cases hemitter : Emitter.ofId? config.render.format with
  | none => simp [hemitter] at h
  | some emitter =>
    cases hindent : Indent.ofName? config.render.indent with
    | none => simp [hemitter, hindent] at h
    | some indent => exact ⟨emitter, _, rfl⟩

theorem selection_eq_ok {config : Config} {emitter : Emitter} {emitConfig : EmitConfig}
    (h : Document.selection config = .ok (emitter, emitConfig)) :
    Emitter.ofId? config.render.format = some emitter := by
  unfold Document.selection Config.emitter at h
  cases hemitter : Emitter.ofId? config.render.format with
  | none =>
    rw [hemitter] at h
    contradiction
  | some selected =>
    rw [hemitter] at h
    unfold Config.emitConfig at h
    cases hindent : Indent.ofName? config.render.indent with
    | none =>
      rw [hindent] at h
      contradiction
    | some indent =>
      rw [hindent] at h
      rw [(Prod.mk.inj (Except.ok.inj h)).1]

theorem passes_iff (module : Module) (denyWarnings : Bool) (config : Config) :
    CheckedModule.passes ⟨module, module.check⟩ (config.override
        { denyWarnings := if denyWarnings then some true else none }).check.denyWarnings = true ↔
      module.check.isClean = true ∨
        denyWarnings = false ∧ config.check.denyWarnings = false := by
  cases denyWarnings <;> simp [CheckedModule.passes, Config.override, or_comm]

theorem canonicalText_override (compact : Bool) (config : Config) (document : Document) :
    (Exchange.canonicalText (layoutOf (config.override
        { pretty := if compact then some false else none }).output.pretty) document.module).value =
      formatted compact config document := by
  cases compact <;> cases hpretty : config.output.pretty <;>
    simp [formatted, layoutOf, Config.override, hpretty]

section Runs

variable (tree : FileTree) (config? : Option String) (file : String)

theorem ends_check (denyWarnings : Bool) :
    Ends tree config? (.check file denyWarnings)
      (runCheck tree config? file denyWarnings).value.result
      (runCheck tree config? file denyWarnings).value.tree := by
  unfold runCheck
  rw [Logged.bind_value]
  cases hconfig : (Config.load tree config?).value with
  | error fault =>
    rw [settings_of_error hconfig]
    exact .unset rfl hconfig
  | ok config =>
    rw [settings_of_ok hconfig]
    simp only [Document.check, Logged.bind_value]
    cases hdocument : (Document.load tree file).value with
    | error fault =>
      rw [fetch_of_error hdocument]
      exact .unread rfl hconfig trivial hdocument
    | ok document =>
      have hbegins : Begins tree config? (.check file denyWarnings) file config document :=
        ⟨rfl, hconfig, trivial, hdocument⟩
      have hpasses := passes_iff document.module denyWarnings config
      rw [fetch_of_ok hdocument]
      simp only [Logged.bind_value, Logged.pure_value]
      by_cases hpass : document.module.check.isClean = true ∨
          denyWarnings = false ∧ config.check.denyWarnings = false
      · rw [if_pos (hpasses.mpr hpass)]
        exact .passed hbegins hpass
      · -- what does not pass has findings, and they are denied by the flag or by the settings
        rw [if_neg (mt hpasses.mp hpass)]
        rw [not_or, Classical.not_and_iff_not_or_not, Bool.not_eq_true, Bool.not_eq_false,
          Bool.not_eq_false] at hpass
        exact .denied hbegins hpass.1 hpass.2

theorem ends_format (onlyLook compact : Bool) :
    Ends tree config? (.format file onlyLook compact)
      (runFormat tree config? file onlyLook compact).value.result
      (runFormat tree config? file onlyLook compact).value.tree := by
  unfold runFormat
  rw [Logged.bind_value]
  cases hconfig : (Config.load tree config?).value with
  | error fault =>
    rw [settings_of_error hconfig]
    exact .unset rfl hconfig
  | ok config =>
    rw [settings_of_ok hconfig]
    simp only [Document.format, Logged.bind_value]
    cases hdocument : (Document.load tree file).value with
    | error fault =>
      rw [fetch_of_error hdocument]
      exact .unread rfl hconfig trivial hdocument
    | ok document =>
      have hbegins : Begins tree config? (.format file onlyLook compact) file config document :=
        ⟨rfl, hconfig, trivial, hdocument⟩
      rw [fetch_of_ok hdocument]
      simp only [Logged.bind_value, Logged.pure_value, canonicalText_override]
      cases onlyLook with
      | true =>
        simp only [if_true, Logged.pure_value, lookFormat, Formatting.isCanonical, beq_iff_eq]
        by_cases halike : document.text = formatted compact config document
        · rw [if_pos halike]
          exact .alike hbegins halike
        · rw [if_neg halike]
          exact .unlike hbegins halike
      | false =>
        -- the tree of the command is that of the writing, whatever came of it
        simp only [if_neg Bool.false_ne_true, Logged.bind_value]
        cases hwrite : (Output.write false tree file (formatted compact config document)).value with
        | mk result after =>
          cases result with
          | error fault => exact .unformatted hbegins hwrite
          | ok result => exact .reformatted hbegins hwrite

theorem ends_render (format? output? : Option String) (dryRun noDocs : Bool) :
    Ends tree config? (.render file format? output? dryRun noDocs)
      (runRender tree config? file (renderOverrides format? output? noDocs) dryRun).value.result
      (runRender tree config? file (renderOverrides format? output? noDocs) dryRun).value.tree := by
  unfold runRender
  rw [Logged.bind_value]
  cases hconfig : (Config.load tree config?).value with
  | error fault =>
    rw [renderSettings_of_error (settings_of_error hconfig _)]
    exact .unset rfl hconfig
  | ok config =>
    cases haccepts : (config.override (renderOverrides format? output? noDocs)).validate with
    | error fault =>
      rw [renderSettings_of_refused (settings_of_ok hconfig _) haccepts]
      exact .refused hconfig haccepts
    | ok accepted =>
      -- what was found valid is looked at again, which cannot fail any more
      obtain ⟨emitter, emitConfig, hselection⟩ := selection_of_validate haccepts
      rw [renderSettings_of_valid (settings_of_ok hconfig _) haccepts]
      simp only [Document.render, hselection, Logged.bind_value]
      cases hdocument : (Document.load tree file).value with
      | error fault =>
        rw [fetch_of_error hdocument]
        exact .unread rfl hconfig haccepts hdocument
      | ok document =>
        have hbegins : Begins tree config? (.render file format? output? dryRun noDocs) file config
            document := ⟨rfl, hconfig, haccepts, hdocument⟩
        rw [fetch_of_ok hdocument]
        simp only [Logged.bind_value]
        cases hemit : (emitter.emit emitConfig document.module).value with
        | error fault => exact .unnamed hbegins hselection hemit
        | ok emitted =>
          simp only [Logged.bind_value, Logged.pure_value]
          cases hwrite :
              (Output.writeEmitted dryRun tree (output?.getD config.output.dir) emitted).value with
          | mk result after =>
            have hdirectory : (config.override
                (renderOverrides format? output? noDocs)).output.dir =
              output?.getD config.output.dir := rfl
            rw [hdirectory, hwrite]
            cases result with
            | error fault => exact .unrendered hbegins hselection hemit hwrite
            | ok result => exact .rendered hbegins hselection hemit hwrite

theorem ends_init (output : String) (force : Bool) :
    Ends tree config? (.init output force) (runInit tree output force).result
      (runInit tree output force).tree := by
  unfold runInit
  by_cases hfree : tree.pathExists output = false ∨ force = true
  · have hgo : ¬(tree.pathExists output && !force) = true := by
      rcases hfree with hfree | rfl
      · simp [hfree]
      · simp
    rw [if_neg hgo]
    cases hwrite : tree.writeText output Config.defaultText with
    | error fault => exact .uncreated hfree hwrite
    | ok after => exact .created hfree hwrite
  · rw [not_or, Bool.not_eq_false, Bool.not_eq_true] at hfree
    obtain ⟨hexists, rfl⟩ := hfree
    rw [if_pos (by rw [hexists]; rfl)]
    exact .standing hexists

end Runs

end Command

/-- A run ends in one of the ways that its command can end. -/
theorem Invocation.ends (invocation : Invocation) (tree : FileTree) :
    invocation.command.Ends tree invocation.config (invocation.run tree).value.result
      (invocation.run tree).value.tree := by
  unfold Invocation.run
  cases hcommand : invocation.command with
  | check file denyWarnings => exact Command.ends_check tree invocation.config file denyWarnings
  | format file onlyLook compact =>
    exact Command.ends_format tree invocation.config file onlyLook compact
  | render file format? output? dryRun noDocs =>
    exact Command.ends_render tree invocation.config file format? output? dryRun noDocs
  | init output force => exact Command.ends_init tree invocation.config output force

end ModuleSurface
