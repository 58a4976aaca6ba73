import ModuleSurface.Proofs.Command.Ends
import ModuleSurface.Proofs.Emit.OutputPath
import ModuleSurface.Proofs.Output.Contained
import ModuleSurface.Proofs.Output.Rewrite

/-!
# Touched — what a run can do to the files

A command has at most one file to write (`Command.target?`).  Whatever it comes to, all that was
there is still there, no other file is made or gets another text, and new directories stand above
the file of a rendering (`Touches`).  A command that fails leaves every file as it was
(`Program.run_touches`).
-/

namespace ModuleSurface

open FileTree (Grows)

/-! ## 1. The file of a command -/

namespace Command

def OnlyLooks : Command → Prop
  | .check _ _ => True
  | .format _ onlyLook _ => onlyLook = true
  | .render _ _ _ dryRun _ => dryRun = true
  | .init _ _ => False

/-- The path of the file that a rendering is written to, as far as there are settings and a
document. -/
def renderTarget? (tree : FileTree) (config? : Option String) (file : String)
    (format? output? : Option String) : Option String := do
  let config ← (Config.load tree config?).value.toOption
  let document ← (Document.load tree file).value.toOption
  let emitter ← Emitter.ofId? (format?.getD config.render.format)
  let emitted ← (emitter.path document.module.name).toOption
  return Path.join (output?.getD config.output.dir) emitted

def opening? (tree : FileTree) (config? : Option String) : Command → Option String
  | .render file format? output? dryRun _ =>
      if dryRun then none else renderTarget? tree config? file format? output?
  | _ => none

def target? (tree : FileTree) (config? : Option String) : Command → Option String
  | .check _ _ => none
  | .format file onlyLook _ => if onlyLook then none else some file
  | .render file format? output? dryRun _ =>
      if dryRun then none else renderTarget? tree config? file format? output?
  | .init output _ => some output

end Command

/-! ## 2. What becomes of a tree -/

/-- Whether a location is that of a directory above a path. -/
def Opens (opening? : Option String) (tree : FileTree) (location : Location) : Prop :=
  ∃ path upper, opening? = some path ∧ Path.Above upper path ∧ location = tree.place upper

/-- A tree that differs from another one by no more than the file of a path, which is made or gets
another text, and new directories above another path. -/
structure Touches (target? opening? : Option String) (before after : FileTree) : Prop where
  workingDirectory : after.workingDirectory = before.workingDirectory
  directories : ∀ location, before.get? location = some .directory →
    after.get? location = some .directory
  files : ∀ location old, before.get? location = some (.file old) →
    ∃ new, after.get? location = some (.file new)
  written : ∀ location bytes, after.get? location = some (.file bytes) →
    before.get? location = some (.file bytes) ∨
      ∃ path, target? = some path ∧ location = before.place path
  opened : ∀ location, after.get? location = some .directory →
    before.get? location = some .directory ∨
      before.get? location = none ∧ Opens opening? before location

def SameFiles (before after : FileTree) : Prop :=
  ∀ location bytes, after.get? location = some (.file bytes) ↔
    before.get? location = some (.file bytes)

section Trees

variable {target? opening? : Option String} {before between after : FileTree}

theorem SameFiles.refl (tree : FileTree) : SameFiles tree tree :=
  fun _ _ => Iff.rfl

theorem sameFiles_of_grows {MayStand : Location → Prop} (h : Grows MayStand before after) :
    SameFiles before after :=
  h.get?_eq_file_iff

theorem touches_of_grows (h : Grows (Opens opening? before) before after) :
    Touches target? opening? before after where
  workingDirectory := h.workingDirectory
  directories _ hdirectory := h.keeps.entries _ _ hdirectory
  files _ _ hfile := ⟨_, h.keeps.entries _ _ hfile⟩
  written _ _ hfile := .inl ((sameFiles_of_grows h _ _).mp hfile)
  opened location hdirectory := by
    rcases h.entries location with hsame | ⟨hnone, -, hopens⟩
    · exact .inl (hsame ▸ hdirectory)
    · exact .inr ⟨hnone, hopens⟩

theorem Touches.refl (target? opening? : Option String) (tree : FileTree) :
    Touches target? opening? tree tree :=
  touches_of_grows (.refl tree)

theorem touches_of_writeText [FileTree.Limits] {path content : String}
    (h : Grows (Opens opening? before) before between)
    (hwrite : between.writeText path content = .ok after) :
    Touches (some path) opening? before after := by
  have hmade : Touches (some path) opening? before between := touches_of_grows h
  obtain ⟨hroot, hplace, -, rfl⟩ := FileTree.writeText_eq_ok hwrite
  rw [h.place_eq] at hroot hplace ⊢
  have hput := fun other => FileTree.get?_put between (before.place path) other
    (.file content.toUTF8) hroot
  refine ⟨h.workingDirectory, fun location hdirectory => ?_, fun location old hold => ?_,
    fun location bytes hfile => ?_, fun location hdirectory => ?_⟩
  · -- a directory where the file goes would have kept it from being written
    have hbetween := hmade.directories location hdirectory
    rw [hput, if_neg, hbetween]
    rintro rfl
    exact hplace hbetween
  · rw [hput]
    split
    · exact ⟨_, rfl⟩
    · exact hmade.files location old hold
  · rw [hput] at hfile
    split at hfile
    · exact .inr ⟨path, rfl, ‹_›⟩
    · exact hmade.written location bytes hfile
  · rw [hput] at hdirectory
    split at hdirectory
    · simp at hdirectory
    · exact hmade.opened location hdirectory

/-- Writing a text touches no other file, and none at all if it fails. -/
theorem touches_write [FileTree.Limits] {path content : String}
    {result : Except WriteFault WriteResult}
    (hmade : Grows (Opens opening? before) before (Output.makeParent before path).2)
    (h : (Output.write false before path content).value = (result, after)) :
    Touches (some path) opening? before after ∧
      ((∃ fault, result = .error fault) → SameFiles before after) := by
  obtain ⟨between, hgrows, ⟨_, hafter⟩ | ⟨_, hwrite, hafter⟩⟩ :=
    Output.exists_grows_write false hmade content
  · obtain ⟨rfl, rfl⟩ := Prod.mk.inj (h.symm.trans hafter)
    exact ⟨touches_of_grows hgrows, fun _ => sameFiles_of_grows hgrows⟩
  · obtain ⟨rfl, rfl⟩ := Prod.mk.inj (h.symm.trans hafter)
    exact ⟨touches_of_writeText hgrows hwrite, by simp⟩

theorem touches_write_of_resolve [FileTree.Limits] {path content : String} {location : Location}
    {result : Except WriteFault WriteResult} (hresolve : before.resolve path = .ok location)
    (h : (Output.write false before path content).value = (result, after)) :
    Touches (some path) none before after ∧
      ((∃ fault, result = .error fault) → SameFiles before after) := by
  refine touches_write ?_ h
  rw [Output.makeParent_of_resolve hresolve]
  exact .refl before

theorem touches_writeEmitted [FileTree.Limits] {directory : String} {emitted : EmittedFile}
    {result : Except WriteFault WriteResult}
    (h : (Output.writeEmitted false before directory emitted).value = (result, after)) :
    Touches (some (Path.join directory emitted.path)) (some (Path.join directory emitted.path))
        before after ∧
      ((∃ fault, result = .error fault) → SameFiles before after) := by
  unfold Output.writeEmitted at h
  split at h
  · refine touches_write (Output.grows_makeParent fun upper hupper => ?_) h
    exact ⟨_, upper, rfl, hupper, rfl⟩
  · obtain ⟨rfl, rfl⟩ := Prod.mk.inj h
    exact ⟨.refl _ _ _, fun _ => .refl _⟩

theorem writeEmitted_dryRun [FileTree.Limits] {directory : String} {emitted : EmittedFile}
    {result : Except WriteFault WriteResult}
    (h : (Output.writeEmitted true before directory emitted).value = (result, after)) :
    after = before := by
  unfold Output.writeEmitted Output.write at h
  split at h <;> exact (Prod.mk.inj h).2.symm

end Trees

/-! ## 3. Commands -/

namespace Command

variable {tree after : FileTree} {config? : Option String} {command : Command}
  {result : Except CommandFault Unit}

/-- What is rendered goes to the path that its settings and its document give. -/
theorem renderTarget?_eq_some {file : String} {format? output? : Option String}
    {dryRun noDocs : Bool} {config : Config} {document : Document} {emitter : Emitter}
    {emitConfig : EmitConfig} {emitted : EmittedFile}
    (hbegins : Begins tree config? (.render file format? output? dryRun noDocs) file config
      document)
    (hselection : Document.selection (config.override (renderOverrides format? output? noDocs)) =
      .ok (emitter, emitConfig))
    (hemit : (emitter.emit emitConfig document.module).value = .ok emitted) :
    renderTarget? tree config? file format? output? =
      some (Path.join (output?.getD config.output.dir) emitted.path) := by
  have hformat : Emitter.ofId? (format?.getD config.render.format) = some emitter :=
    selection_eq_ok hselection
  rw [renderTarget?, hbegins.settings, hbegins.loaded]
  simp [hformat, Emitter.path_of_emit hemit, Except.toOption]

theorem exists_resolve_of_load {file : String} {document : Document}
    (h : (Document.load tree file).value = .ok document) :
    ∃ location, tree.resolve file = .ok location := by
  obtain ⟨location, hresolve, -⟩ :=
    FileTree.exists_file_of_readText (Document.load_eq_ok_iff.mp h).1
  exact ⟨location, hresolve⟩

/-- A command touches no file but the one that it writes, and none at all if it fails. -/
theorem Ends.touches (h : command.Ends tree config? result after) :
    Touches (command.target? tree config?) (command.opening? tree config?) tree after ∧
      ((∃ fault, result = .error fault) → SameFiles tree after) := by
  cases h with
  | unset | refused | unread | passed | denied | alike | unlike | unnamed | standing | uncreated =>
    exact ⟨.refl _ _ _, fun _ => .refl _⟩
  -- a document was read from its file, so there are no directories to be made for it
  | unformatted hbegins hwrite =>
    obtain ⟨location, hresolve⟩ := exists_resolve_of_load hbegins.loaded
    obtain ⟨htouches, hsame⟩ := touches_write_of_resolve hresolve hwrite
    exact ⟨htouches, fun _ => hsame ⟨_, rfl⟩⟩
  | reformatted hbegins hwrite =>
    obtain ⟨location, hresolve⟩ := exists_resolve_of_load hbegins.loaded
    exact ⟨(touches_write_of_resolve hresolve hwrite).1, by simp⟩
  | @unrendered file format? output? dryRun noDocs _ _ _ _ _ _ _ hbegins hselection hemit hwrite =>
    cases dryRun with
    | true =>
      rw [writeEmitted_dryRun hwrite]
      exact ⟨.refl _ _ _, fun _ => .refl _⟩
    | false =>
      obtain ⟨htouches, hsame⟩ := touches_writeEmitted hwrite
      rw [target?, opening?, renderTarget?_eq_some hbegins hselection hemit]
      exact ⟨htouches, fun _ => hsame ⟨_, rfl⟩⟩
  | @rendered file format? output? dryRun noDocs _ _ _ _ _ _ _ hbegins hselection hemit hwrite =>
    cases dryRun with
    | true =>
      rw [writeEmitted_dryRun hwrite]
      exact ⟨.refl _ _ _, fun _ => .refl _⟩
    | false =>
      rw [target?, opening?, renderTarget?_eq_some hbegins hselection hemit]
      exact ⟨(touches_writeEmitted hwrite).1, by simp⟩
  | created hfree hwrite => exact ⟨touches_of_writeText (.refl tree) hwrite, by simp⟩

theorem Ends.tree_eq (h : command.Ends tree config? result after) (hlooks : command.OnlyLooks) :
    after = tree := by
  cases h with
  | unset | refused | unread | passed | denied | alike | unlike | unnamed | standing | uncreated =>
    rfl
  | unformatted => exact absurd hlooks Bool.false_ne_true
  | reformatted => exact absurd hlooks Bool.false_ne_true
  | unrendered _ _ _ hwrite =>
    cases hlooks
    exact writeEmitted_dryRun hwrite
  | rendered _ _ _ hwrite =>
    cases hlooks
    exact writeEmitted_dryRun hwrite
  | created => exact hlooks.elim

theorem Ends.isClosed (h : command.Ends tree config? result after) (htree : tree.IsClosed) :
    after.IsClosed := by
  cases h with
  | unset | refused | unread | passed | denied | alike | unlike | unnamed | standing | uncreated =>
    exact htree
  | unformatted _ hwrite => exact Output.isClosed_write htree hwrite
  | reformatted _ hwrite => exact Output.isClosed_write htree hwrite
  | unrendered _ _ _ hwrite => exact Output.isClosed_writeEmitted htree hwrite
  | rendered _ _ _ hwrite => exact Output.isClosed_writeEmitted htree hwrite
  | created _ hwrite => exact htree.writeText hwrite

end Command

/-! ## 4. Whole runs -/

namespace Program

def target? (tree : FileTree) (arguments : List String) : Option String :=
  match Invocation.ofArguments arguments with
  | .error _ => none
  | .ok invocation => invocation.command.target? tree invocation.config

def opening? (tree : FileTree) (arguments : List String) : Option String :=
  match Invocation.ofArguments arguments with
  | .error _ => none
  | .ok invocation => invocation.command.opening? tree invocation.config

/-- A run touches no more than the file of its command and the way to it.  It leaves the tree as it
is unless it has a command that does more than look, and every file if it does not end well. -/
theorem run_touches (tree : FileTree) (arguments : List String) :
    Touches (target? tree arguments) (opening? tree arguments) tree
        (run tree arguments).value.tree ∧
      ((∀ invocation, Invocation.ofArguments arguments = .ok invocation →
          invocation.command.OnlyLooks) → (run tree arguments).value.tree = tree) ∧
      ((run tree arguments).value.status ≠ 0 → SameFiles tree (run tree arguments).value.tree) := by
  unfold run target? opening?
  cases harguments : Invocation.ofArguments arguments with
  | error diversion =>
    have htree : (divert tree diversion).tree = tree := by cases diversion <;> rfl
    rw [Logged.pure_value, htree]
    exact ⟨.refl _ _ _, fun _ => rfl, fun _ => .refl tree⟩
  | ok invocation =>
    have hends := invocation.ends tree
    obtain ⟨htouches, hsame⟩ := hends.touches
    refine ⟨htouches, fun hlooks => hends.tree_eq (hlooks invocation rfl), fun hstatus => ?_⟩
    refine hsame ?_
    -- only a command that has failed has another status than zero
    cases hresult : (invocation.run tree).value.result with
    | error fault => exact ⟨fault, rfl⟩
    | ok done =>
      refine absurd ?_ hstatus
      simp [conclude, Completion.status, hresult]

/-- Everything stands in a directory after a run, if it did so before. -/
theorem run_isClosed {tree : FileTree} (h : tree.IsClosed) (arguments : List String) :
    (run tree arguments).value.tree.IsClosed := by
  unfold run
  cases Invocation.ofArguments arguments with
  | error diversion => cases diversion <;> exact h
  | ok invocation => exact (invocation.ends tree).isClosed h

end Program

end ModuleSurface
