import ModuleSurface.Proofs.Command.Ends
import ModuleSurface.Proofs.Json.Reads

/-!
# Status — what the exit status of a run tells

The exit status is two exactly if a command has looked at its files and objects to them
(`Command.Objects`), zero exactly if it has done its work (`Command.Completes`), and one if it could
not do its work (`Program.run_status`).  A rendering with settings that are valid does not fail
because of them.
-/

namespace ModuleSurface

/-! ## 1. The status of a result -/

namespace Completion

theorem status_eq_zero_iff (completion : Completion) :
    completion.status = 0 ↔ completion.result = .ok () := by
  unfold status
  cases completion.result with
  | ok => simp
  | error fault => simp [fault.status_ne_zero]

theorem status_eq_two_iff (completion : Completion) :
    completion.status = 2 ↔ ∃ cause, completion.result = .error (.objection cause) := by
  unfold status
  cases completion.result with
  | ok => simp
  | error fault => cases fault <;> simp [CommandFault.status]

theorem status_cases (completion : Completion) :
    completion.status = 0 ∨ completion.status = 1 ∨ completion.status = 2 := by
  unfold status
  cases completion.result with
  | ok => simp
  | error fault => cases fault <;> simp [CommandFault.status]

end Completion

/-! ## 2. Objections and completed work -/

namespace Command

/-- Whether a command finds something wrong with its files: a module with findings that are not
let pass, a text that is not the canonical one of its module, or something in the place of a new
file. -/
def Objects (tree : FileTree) (config? : Option String) : Command → Prop
  | .check file denyWarnings => ∃ config document,
      (Config.load tree config?).value = .ok config ∧
        (Document.load tree file).value = .ok document ∧
        document.module.check.isClean = false ∧
        (denyWarnings = true ∨ config.check.denyWarnings = true)
  | .format file true compact => ∃ config document,
      (Config.load tree config?).value = .ok config ∧
        (Document.load tree file).value = .ok document ∧
        document.text ≠ formatted compact config document
  | .init output false => tree.pathExists output = true
  | _ => False

/-- Whether a command can do its work: it has what it works on, does not object to it, and can write
what it has to write. -/
def Completes (tree : FileTree) (config? : Option String) : Command → Prop
  | .check file denyWarnings => ∃ config document,
      (Config.load tree config?).value = .ok config ∧
        (Document.load tree file).value = .ok document ∧
        (document.module.check.isClean = true ∨
          denyWarnings = false ∧ config.check.denyWarnings = false)
  | .format file true compact => ∃ config document,
      (Config.load tree config?).value = .ok config ∧
        (Document.load tree file).value = .ok document ∧
        document.text = formatted compact config document
  | .format file false compact => ∃ config document,
      (Config.load tree config?).value = .ok config ∧
        (Document.load tree file).value = .ok document ∧
        ∃ result, (Output.write false tree file (formatted compact config document)).value.1 =
          .ok result
  | .render file format? output? dryRun noDocs => ∃ config document,
      (Config.load tree config?).value = .ok config ∧
        (config.override (renderOverrides format? output? noDocs)).validate = .ok () ∧
        (Document.load tree file).value = .ok document ∧
        ∃ emitter emitConfig emitted result,
          Document.selection (config.override (renderOverrides format? output? noDocs)) =
              .ok (emitter, emitConfig) ∧
            (emitter.emit emitConfig document.module).value = .ok emitted ∧
            (Output.writeEmitted dryRun tree (output?.getD config.output.dir) emitted).value.1 =
              .ok result
  | .init output force =>
      (tree.pathExists output = false ∨ force = true) ∧
        ∃ after, tree.writeText output Config.defaultText = .ok after

/-- Whether the settings and the document that a command works on are there. -/
def Ready (tree : FileTree) (config? : Option String) (file : String) : Prop :=
  (∃ config, (Config.load tree config?).value = .ok config) ∧
    ∃ document, (Document.load tree file).value = .ok document

variable {tree after : FileTree} {config? : Option String} {command : Command} {file : String}
  {result : Except CommandFault Unit}

theorem Objects.ready (h : command.Objects tree config?) (hfile : command.file? = some file) :
    Ready tree config? file := by
  cases command with
  | check =>
    obtain ⟨config, document, hconfig, hdocument, -⟩ := h
    cases hfile
    exact ⟨⟨config, hconfig⟩, document, hdocument⟩
  | format _ onlyLook _ =>
    cases onlyLook with
    | true =>
      obtain ⟨config, document, hconfig, hdocument, -⟩ := h
      cases hfile
      exact ⟨⟨config, hconfig⟩, document, hdocument⟩
    | false => exact absurd h id
  | render => exact absurd h id
  | init => contradiction

theorem Completes.ready (h : command.Completes tree config?) (hfile : command.file? = some file) :
    Ready tree config? file := by
  cases command with
  | check =>
    obtain ⟨config, document, hconfig, hdocument, -⟩ := h
    cases hfile
    exact ⟨⟨config, hconfig⟩, document, hdocument⟩
  | format _ onlyLook _ =>
    cases hfile
    cases onlyLook <;> obtain ⟨config, document, hconfig, hdocument, -⟩ := h <;>
      exact ⟨⟨config, hconfig⟩, document, hdocument⟩
  | render =>
    obtain ⟨config, document, hconfig, -, hdocument, -⟩ := h
    cases hfile
    exact ⟨⟨config, hconfig⟩, document, hdocument⟩
  | init => contradiction

theorem not_ready_of_config {fault : ConfigFault}
    (h : (Config.load tree config?).value = .error fault) : ¬Ready tree config? file := by
  rintro ⟨⟨config, hconfig⟩, -⟩
  rw [h] at hconfig
  contradiction

theorem not_ready_of_document {fault : LoadFault}
    (h : (Document.load tree file).value = .error fault) : ¬Ready tree config? file := by
  rintro ⟨-, document, hdocument⟩
  rw [h] at hdocument
  contradiction

theorem Objects.pathExists {output : String} {force : Bool}
    (h : Objects tree config? (.init output force)) : tree.pathExists output = true := by
  cases force with
  | false => exact h
  | true => exact absurd h id

theorem Ends.objects_iff (h : command.Ends tree config? result after) :
    (∃ cause, result = .error (.objection cause)) ↔ command.Objects tree config? := by
  -- a command that works on a document objects to nothing without it and its settings
  cases h with
  | unset hfile hconfig =>
    exact iff_of_false (by simp) fun hobjects =>
      not_ready_of_config hconfig (hobjects.ready hfile)
  | unread hfile _ _ hdocument =>
    exact iff_of_false (by simp) fun hobjects =>
      not_ready_of_document hdocument (hobjects.ready hfile)
  | passed hbegins hpasses =>
    rcases hpasses with hclean | ⟨hflag, hset⟩
    · simp [Objects, hbegins.settings, hbegins.loaded, hclean]
    · simp [Objects, hbegins.settings, hbegins.loaded, hflag, hset]
  | denied hbegins hfindings hdenied =>
    simp [Objects, hbegins.settings, hbegins.loaded, hfindings, hdenied]
  | alike hbegins halike => simp [Objects, hbegins.settings, hbegins.loaded, halike]
  | unlike hbegins hunlike => simp [Objects, hbegins.settings, hbegins.loaded, hunlike]
  | standing hexists => simp [Objects, hexists]
  | uncreated hfree =>
    rcases hfree with hfree | rfl
    · exact iff_of_false (by simp) fun hobjects =>
        Bool.false_ne_true (hfree.symm.trans hobjects.pathExists)
    · simp [Objects]
  | created hfree =>
    rcases hfree with hfree | rfl
    · exact iff_of_false (by simp) fun hobjects =>
        Bool.false_ne_true (hfree.symm.trans hobjects.pathExists)
    · simp [Objects]
  | refused | unformatted | reformatted | unnamed | unrendered | rendered => simp [Objects]

theorem Ends.completes_iff (h : command.Ends tree config? result after) :
    result = .ok () ↔ command.Completes tree config? := by
  -- an end fixes all that the condition looks at, so that both sides can be computed
  cases h with
  | unset hfile hconfig =>
    exact iff_of_false (by simp) fun hcompletes =>
      not_ready_of_config hconfig (hcompletes.ready hfile)
  | unread hfile _ _ hdocument =>
    exact iff_of_false (by simp) fun hcompletes =>
      not_ready_of_document hdocument (hcompletes.ready hfile)
  | refused hconfig hfault => simp [Completes, hconfig, hfault]
  | passed hbegins hpasses => simp [Completes, hbegins.settings, hbegins.loaded, hpasses]
  | denied hbegins hfindings hdenied =>
    rcases hdenied with hflag | hset
    · simp [Completes, hbegins.settings, hbegins.loaded, hfindings, hflag]
    · simp [Completes, hbegins.settings, hbegins.loaded, hfindings, hset]
  | alike hbegins halike => simp [Completes, hbegins.settings, hbegins.loaded, halike]
  | unlike hbegins hunlike => simp [Completes, hbegins.settings, hbegins.loaded, hunlike]
  | unformatted hbegins hwrite =>
    simp [Completes, hbegins.settings, hbegins.loaded, hwrite]
  | reformatted hbegins hwrite =>
    simp [Completes, hbegins.settings, hbegins.loaded, hwrite]
  | unnamed hbegins hselection hemit =>
    simp [Completes, hbegins.settings, hbegins.loaded, hselection, hemit]
  | unrendered hbegins hselection hemit hwrite =>
    simp [Completes, hbegins.settings, hbegins.loaded, hselection, hemit, hwrite]
  | rendered hbegins hselection hemit hwrite =>
    exact iff_of_true rfl ⟨_, _, hbegins.settings, hbegins.accepts, hbegins.loaded, _, _, _, _,
      hselection, hemit, by rw [hwrite]⟩
  | standing hexists => simp [Completes, hexists]
  | uncreated hfree hwrite => simp [Completes, hwrite]
  | created hfree hwrite => simp [Completes, hwrite, hfree]

/-- Valid settings are no reason for a rendering to fail. -/
theorem render_fault_of_validate {config : Config} {fault : CommandFault}
    (hvalid : config.validate = .ok ())
    (h : (Document.render tree file config).value = .error fault) :
    (∃ cause, fault = .load cause) ∨ ∃ cause, fault = .emit cause := by
  obtain ⟨emitter, emitConfig, hselection⟩ := selection_of_validate hvalid
  simp only [Document.render, hselection, Logged.bind_value] at h
  cases hdocument : (Document.load tree file).value with
  | error cause =>
    rw [fetch_of_error hdocument] at h
    exact .inl ⟨cause, (Except.error.inj h).symm⟩
  | ok document =>
    rw [fetch_of_ok hdocument] at h
    simp only [Logged.bind_value] at h
    cases hemit : (emitter.emit emitConfig document.module).value with
    | error cause =>
      rw [hemit] at h
      exact .inr ⟨cause, (Except.error.inj h).symm⟩
    | ok emitted =>
      rw [hemit] at h
      contradiction

/-- What is left to go wrong with a rendering whose settings are valid. -/
theorem Ends.render_fault {format? output? : Option String} {dryRun noDocs : Bool}
    {config : Config} {fault : CommandFault}
    (h : Ends tree config? (.render file format? output? dryRun noDocs) (.error fault) after)
    (hconfig : (Config.load tree config?).value = .ok config)
    (hvalid : (config.override (renderOverrides format? output? noDocs)).validate = .ok ()) :
    (∃ cause, fault = .load cause) ∨ (∃ cause, fault = .emit cause) ∨
      ∃ cause, fault = .write cause := by
  cases h with
  | unset _ hunset =>
    rw [hconfig] at hunset
    contradiction
  | refused hsettings hrefused =>
    rw [hconfig] at hsettings
    cases hsettings
    rw [hvalid] at hrefused
    contradiction
  | unread => exact .inl ⟨_, rfl⟩
  | unnamed => exact .inr (.inl ⟨_, rfl⟩)
  | unrendered => exact .inr (.inr ⟨_, rfl⟩)

end Command

/-! ## 4. Whole runs -/

namespace Program

variable {tree : FileTree} {arguments : List String} {invocation : Invocation}

theorem run_value (h : Invocation.ofArguments arguments = .ok invocation) :
    (run tree arguments).value = conclude (invocation.run tree).value := by
  rw [run, h]
  rfl

/-- The exit status of a run that is no misuse: two exactly if its command objects to what it has
looked at, zero exactly if it has done its work, and one otherwise.  Settings that are valid once
those of the command line are in their places leave a rendering no way to fail but its document, its
module's name and the files. -/
theorem run_status (h : Invocation.ofArguments arguments ≠ .error .misuse) :
    ((run tree arguments).value.status = 2 ↔ ∃ invocation,
        Invocation.ofArguments arguments = .ok invocation ∧
          invocation.command.Objects tree invocation.config) ∧
      ((run tree arguments).value.status = 0 ↔ ∀ invocation,
        Invocation.ofArguments arguments = .ok invocation →
          invocation.command.Completes tree invocation.config) ∧
      ((run tree arguments).value.status = 0 ∨ (run tree arguments).value.status = 1 ∨
        (run tree arguments).value.status = 2) ∧
      (∀ file config, config.validate = .ok () → ∀ fault,
        (Document.render tree file config).value = .error fault →
          (∃ cause, fault = .load cause) ∨ ∃ cause, fault = .emit cause) ∧
      ∀ invocation file format? output? dryRun noDocs config,
        Invocation.ofArguments arguments = .ok invocation →
        invocation.command = .render file format? output? dryRun noDocs →
        (Config.load tree invocation.config).value = .ok config →
        (config.override (Command.renderOverrides format? output? noDocs)).validate = .ok () →
        ∀ fault, (invocation.run tree).value.result = .error fault →
          (∃ cause, fault = .load cause) ∨ (∃ cause, fault = .emit cause) ∨
            ∃ cause, fault = .write cause := by
  have hrender : ∀ file config, Config.validate config = .ok () → ∀ fault,
      (Document.render tree file config).value = .error fault →
        (∃ cause, fault = .load cause) ∨ ∃ cause, fault = .emit cause :=
    fun file config hvalid fault hfault => Command.render_fault_of_validate hvalid hfault
  cases harguments : Invocation.ofArguments arguments with
  | error diversion =>
    -- what was asked for is told, and there is no command
    have hstatus : (run tree arguments).value.status = 0 := by
      rw [run, harguments]
      cases diversion with
      | misuse => exact absurd harguments h
      | version => rfl
      | help => rfl
    simp only [hstatus]
    refine ⟨by simp, by simp, .inl trivial, hrender, by simp⟩
  | ok invocation =>
    have hends := invocation.ends tree
    have hstatus : (run tree arguments).value.status = (invocation.run tree).value.status := by
      rw [run_value harguments]
      rfl
    simp only [hstatus, Except.ok.injEq, exists_eq_left', forall_eq']
    refine ⟨?_, ?_, Completion.status_cases _, hrender, ?_⟩
    · rw [Completion.status_eq_two_iff, hends.objects_iff]
    · rw [Completion.status_eq_zero_iff, hends.completes_iff]
    · rintro _ file format? output? dryRun noDocs config rfl hcommand hconfig hvalid fault hfault
      rw [hcommand, hfault] at hends
      exact hends.render_fault hconfig hvalid

/-- A text that is canonical but for its missing line break is objected to. -/
theorem run_status_unlikeSample :
    Invocation.ofArguments ["fmt", "m.json", "--check"] ≠ .error .misuse ∧
      (run ⟨[(["m.json".toList],
        .file "\x7b\"name\":\"m\",\"functions\":[],\"variables\":[]\x7d".toUTF8)], []⟩
        ["fmt", "m.json", "--check"]).value.status = 2 := by
  have harguments : Invocation.ofArguments ["fmt", "m.json", "--check"] =
      .ok ⟨none, 0, .format "m.json" true false⟩ := rfl
  have hproper : Invocation.ofArguments ["fmt", "m.json", "--check"] ≠ .error .misuse := by
    rw [harguments]
    simp
  refine ⟨hproper, (run_status hproper).1.mpr ⟨_, harguments, {}, ?_⟩⟩
  refine ⟨⟨"\x7b\"name\":\"m\",\"functions\":[],\"variables\":[]\x7d", ⟨"m", [], []⟩⟩, rfl, ?_, ?_⟩
  · exact Json.toOption_eq_some_iff.mp (by decide +kernel)
  · decide +kernel

end Program

end ModuleSurface
