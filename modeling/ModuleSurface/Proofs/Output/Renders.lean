import ModuleSurface.Command.Fault
import ModuleSurface.Proofs.Emit.OutputPath
import ModuleSurface.Proofs.Output.Fresh

/-!
# Renders — rendering many modules into one directory

A rendering is a module with an emitter and its settings.  Each one writes its own file below the
output directory, with directories above it that no other one needs as a file.  So all of them
succeed in any order and leave the same tree (`writeAll_of_vacant`).
-/

namespace ModuleSurface

open ModuleSurface.Path (Name segments)
open FileTree (Opened Keeps)

/-! ## 1. Renderings -/

structure Rendering where
  emitter : Emitter
  config : EmitConfig
  module : Module

namespace Rendering

def emitted (rendering : Rendering) : Except EmitFault EmittedFile :=
  (rendering.emitter.emit rendering.config rendering.module).value

/-- What no two renderings should have in common. -/
def key (rendering : Rendering) : String × Emitter :=
  (rendering.module.name, rendering.emitter)

def IsNamed (rendering : Rendering) : Prop :=
  OutputPath.nameFault? rendering.module.name.toList = none

instance (rendering : Rendering) : Decidable rendering.IsNamed :=
  inferInstanceAs (Decidable (_ = _))

/-- Whether the paths of two renderings do not get in each other's way: neither is the other one
or a directory above it. -/
def Apart (left right : Rendering) : Prop :=
  ∀ file other, left.emitted = .ok file → right.emitted = .ok other →
    ¬segments file.path <+: segments other.path ∧ ¬segments other.path <+: segments file.path

variable {rendering left right : Rendering} {file : EmittedFile}

theorem emitted_eq (rendering : Rendering) :
    rendering.emitted = (rendering.emitter.path rendering.module.name).map fun path =>
      ⟨rendering.module.name, path, rendering.config.joinLines
        (rendering.emitter.lines rendering.config rendering.module).value⟩ :=
  rfl

theorem emitted_eq_ok (h : rendering.emitted = .ok file) :
    rendering.emitter.path rendering.module.name = .ok file.path :=
  Emitter.path_of_emit h

theorem exists_emitted (h : rendering.IsNamed) : ∃ file, rendering.emitted = .ok file := by
  obtain ⟨path, hpath⟩ := rendering.emitter.exists_path_eq_ok h
  rw [emitted_eq, hpath]
  exact ⟨_, rfl⟩

theorem apart_of_key_ne (h : left.key ≠ right.key) : Apart left right := by
  intro file other hfile hother
  constructor <;> intro hbelow
  · obtain ⟨hemitter, hmodule⟩ :=
      Emitter.eq_of_prefix_segments (emitted_eq_ok hfile) (emitted_eq_ok hother) hbelow
    exact h (Prod.ext hmodule hemitter)
  · obtain ⟨hemitter, hmodule⟩ :=
      Emitter.eq_of_prefix_segments (emitted_eq_ok hother) (emitted_eq_ok hfile) hbelow
    exact h (Prod.ext hmodule.symm hemitter.symm)

theorem pairwise_apart {renderings : List Rendering} (h : (renderings.map key).Nodup) :
    renderings.Pairwise Apart := by
  rw [List.nodup_iff_pairwise_ne, List.pairwise_map] at h
  exact h.imp apart_of_key_ne

theorem Apart.symm (h : Apart left right) : Apart right left :=
  fun file other hfile hother => (h other file hother hfile).symm

/-! ## 2. What stands after writing -/

/-- Whether a location is the one of a file behind another location, or above it on the way from
there. -/
def Needs (there : Location) (missing : List Name) (file : EmittedFile) (location : Location) :
    Prop :=
  ∃ front, front <+: missing ++ segments file.path ∧ location = there ++ front

/-- Whether every file below a location is the one of a rendering, with what was emitted for it. -/
def OwnsFiles (base : Location) (renderings : List Rendering) (tree : FileTree) : Prop :=
  ∀ location bytes, base <+: location → tree.get? location = some (.file bytes) →
    ∃ rendering ∈ renderings, ∃ file, rendering.emitted = .ok file ∧
      location = base ++ segments file.path ∧ bytes = file.content.toUTF8

/-- A tree that has got the files of some renderings and the directories above them, and nothing
else. -/
structure Rendered (there : Location) (missing : List Name) (renderings : List Rendering)
    (before after : FileTree) : Prop where
  keeps : Keeps before after
  files : ∀ rendering ∈ renderings, ∀ file, rendering.emitted = .ok file →
    after.get? (there ++ (missing ++ segments file.path)) = some (.file file.content.toUTF8)
  directories : ∀ rendering ∈ renderings, ∀ file, rendering.emitted = .ok file →
    ∀ location, Needs there missing file location →
      location ≠ there ++ (missing ++ segments file.path) →
      after.get? location = some .directory
  others : ∀ location,
    (∀ rendering ∈ renderings, ∀ file, rendering.emitted = .ok file →
      ¬Needs there missing file location) →
    after.get? location = before.get? location

variable {before tree after : FileTree} {there : Location} {missing : List Name}
  {done renderings : List Rendering}

theorem rendered_nil (tree : FileTree) : Rendered there missing [] tree tree :=
  ⟨⟨rfl, fun _ _ h => h⟩, by simp, by simp, fun _ _ => rfl⟩

theorem Rendered.concat (h : Rendered there missing done before tree)
    (hfile : rendering.emitted = .ok file) {front : List Name} {last : Name}
    (hpath : segments file.path = front ++ [last])
    (hnone : tree.get? (there ++ (missing ++ segments file.path)) = none) {between : FileTree}
    (hopened : Opened there (missing ++ front) tree between) :
    Rendered there missing (done ++ [rendering]) before
      (between.put (there ++ (missing ++ segments file.path)) (.file file.content.toUTF8)) := by
  have hwhole : missing ++ segments file.path = missing ++ front ++ [last] := by
    rw [hpath, List.append_assoc]
  have hroot : there ++ (missing ++ segments file.path) ≠ [] := by simp [hwhole]
  have hfree : between.get? (there ++ (missing ++ segments file.path)) = none := by
    rw [hwhole, ← List.append_assoc] at hnone ⊢
    exact hopened.get?_concat hnone
  have hput := FileTree.keeps_put hfree (.file file.content.toUTF8)
  have hkeeps := hopened.grows.keeps.trans hput
  -- what holds of the renderings before and of this one holds of all
  have hsplit : ∀ other ∈ done ++ [rendering], ∀ otherFile, other.emitted = .ok otherFile →
      other ∈ done ∨ otherFile = file := by
    intro other hother otherFile hotherFile
    refine (List.mem_append.mp hother).imp_right fun hother => ?_
    rw [List.mem_singleton.mp hother, hfile] at hotherFile
    exact (Except.ok.inj hotherFile).symm
  refine ⟨h.keeps.trans hkeeps, ?_, ?_, ?_⟩
  · intro other hother otherFile hotherFile
    rcases hsplit other hother otherFile hotherFile with hdone | rfl
    · exact hkeeps.entries _ _ (h.files other hdone otherFile hotherFile)
    · rw [FileTree.get?_put _ _ _ _ hroot, if_pos rfl]
  · intro other hother otherFile hotherFile location hneeds hlocation
    rcases hsplit other hother otherFile hotherFile with hdone | rfl
    · exact hkeeps.entries _ _
        (h.directories other hdone otherFile hotherFile location hneeds hlocation)
    · obtain ⟨upper, hupper, rfl⟩ := hneeds
      rw [hwhole, List.prefix_concat_iff, ← hwhole] at hupper
      refine hput.entries _ _ (hopened.stands upper (hupper.resolve_left ?_))
      rintro rfl
      exact hlocation rfl
  · intro location hfar
    have hthis := hfar rendering (by simp) file hfile
    rw [FileTree.get?_put _ _ _ _ hroot, if_neg fun hlocation =>
      hthis ⟨_, List.prefix_refl _, hlocation⟩]
    rcases hopened.grows.entries location with hsame | ⟨-, -, upper, hupper, rfl⟩
    · rw [hsame]
      exact h.others location fun other hother => hfar other (List.mem_append_left _ hother)
    · refine absurd ⟨upper, hupper.trans ?_, rfl⟩ hthis
      rw [hwhole]
      exact List.prefix_append _ _

theorem Rendered.of_perm {order : List Rendering} (h : Rendered there missing order before after)
    (hperm : order.Perm renderings) : Rendered there missing renderings before after :=
  ⟨h.keeps, fun rendering hmem => h.files rendering (hperm.mem_iff.mpr hmem),
    fun rendering hmem => h.directories rendering (hperm.mem_iff.mpr hmem),
    fun location hfar => h.others location fun rendering hmem =>
      hfar rendering (hperm.mem_iff.mp hmem)⟩

/-- What stands at a location after writing. -/
theorem Rendered.cases (h : Rendered there missing renderings before after) (location : Location) :
    (∃ rendering ∈ renderings, ∃ file, rendering.emitted = .ok file ∧
        location = there ++ (missing ++ segments file.path) ∧
        after.get? location = some (.file file.content.toUTF8)) ∨
      (∃ rendering ∈ renderings, ∃ file, rendering.emitted = .ok file ∧
        Needs there missing file location ∧ location ≠ there ++ (missing ++ segments file.path) ∧
        after.get? location = some .directory) ∨
      (∀ rendering ∈ renderings, ∀ file, rendering.emitted = .ok file →
        ¬Needs there missing file location) ∧ after.get? location = before.get? location := by
  by_cases hneeds : ∃ rendering ∈ renderings, ∃ file, rendering.emitted = .ok file ∧
      Needs there missing file location
  · obtain ⟨rendering, hmem, file, hfile, hneeds⟩ := hneeds
    by_cases hlocation : location = there ++ (missing ++ segments file.path)
    · refine .inl ⟨rendering, hmem, file, hfile, hlocation, ?_⟩
      rw [hlocation, h.files rendering hmem file hfile]
    · exact .inr (.inl ⟨rendering, hmem, file, hfile, hneeds, hlocation,
        h.directories rendering hmem file hfile location hneeds hlocation⟩)
  · have hfar : ∀ rendering ∈ renderings, ∀ file, rendering.emitted = .ok file →
        ¬Needs there missing file location := fun rendering hmem file hfile hneed =>
      hneeds ⟨rendering, hmem, file, hfile, hneed⟩
    exact .inr (.inr ⟨hfar, h.others location hfar⟩)

/-- What has been rendered settles what stands in the tree. -/
theorem Rendered.same {other : FileTree} (h : Rendered there missing renderings before after)
    (hother : Rendered there missing renderings before other) : after.Same other := by
  refine ⟨h.keeps.workingDirectory.trans hother.keeps.workingDirectory.symm, fun location => ?_⟩
  rcases h.cases location with ⟨rendering, hmem, file, hfile, hlocation, hafter⟩ |
    ⟨rendering, hmem, file, hfile, hneeds, hlocation, hafter⟩ | ⟨hfar, hafter⟩
  · rw [hafter, hlocation, hother.files rendering hmem file hfile]
  · rw [hafter, hother.directories rendering hmem file hfile location hneeds hlocation]
  · rw [hafter, hother.others location hfar]

/-! ## 3. Writing one rendering after another -/

section Writing

variable [FileTree.Limits] {directory : String}

def write (tree : FileTree) (directory : String) (rendering : Rendering) :
    Logged (Except CommandFault WriteResult × FileTree) := do
  match ← rendering.emitter.emit rendering.config rendering.module with
  | .error fault => return (.error (.emit fault), tree)
  | .ok file =>
      let (result, tree) ← Output.writeEmitted false tree directory file
      return (result.mapError .write, tree)

def writeAll (tree : FileTree) (directory : String) :
    List Rendering → Logged (List (Except CommandFault WriteResult) × FileTree)
  | [] => pure ([], tree)
  | rendering :: renderings => do
      let (result, tree) ← write tree directory rendering
      let (results, tree) ← writeAll tree directory renderings
      return (result :: results, tree)

def Succeeds (directory : String) (rendering : Rendering)
    (result : Except CommandFault WriteResult) : Prop :=
  ∃ file, rendering.emitted = .ok file ∧
    result = .ok (.written (Path.join directory file.path) file.content.utf8ByteSize)

theorem write_value {tree : FileTree} {directory : String} (h : rendering.emitted = .ok file) :
    (write tree directory rendering).value =
      ((Output.writeEmitted false tree directory file).value.1.mapError .write,
        (Output.writeEmitted false tree directory file).value.2) := by
  have hvalue : (rendering.emitter.emit rendering.config rendering.module).value = .ok file := h
  rw [write, Logged.bind_value, hvalue]
  rfl

theorem writeAll_value (tree : FileTree) (directory : String) (renderings : List Rendering) :
    (writeAll tree directory (rendering :: renderings)).value =
      ((write tree directory rendering).value.1 ::
          (writeAll (write tree directory rendering).value.2 directory renderings).value.1,
        (writeAll (write tree directory rendering).value.2 directory renderings).value.2) := by
  rfl

theorem Rendered.get?_eq_none (h : Rendered there missing done before tree)
    (hvacant : before.Vacant directory there missing) (hfile : rendering.emitted = .ok file)
    (hapart : ∀ other ∈ done, Apart rendering other) :
    tree.get? (there ++ (missing ++ segments file.path)) = none := by
  rw [h.others, hvacant.empty _ ?_ (.inr (List.prefix_append _ _))]
  · simp [show segments file.path ≠ [] from Text.split_ne_nil _ _]
  · rintro other hother otherFile hotherFile ⟨front, hfront, hlocation⟩
    rw [← List.append_cancel_left hlocation, List.prefix_append_right_inj] at hfront
    exact (hapart other hother file otherFile hfile hotherFile).1 hfront

/-- No file stands above one that is apart from those that are written. -/
theorem Rendered.clear (h : Rendered there missing done before tree)
    (hvacant : before.Vacant directory there missing) (hfile : rendering.emitted = .ok file)
    (hapart : ∀ other ∈ done, Apart rendering other) {front : List Name} {last : Name}
    (hpath : segments file.path = front ++ [last]) : tree.Clear there (missing ++ front) := by
  intro upper hupper
  -- another rendering may need the directory too, but not as its file
  by_cases hneeds : ∃ other ∈ done, ∃ otherFile, other.emitted = .ok otherFile ∧
      Needs there missing otherFile (there ++ upper)
  · obtain ⟨other, hother, otherFile, hotherFile, hneeds⟩ := hneeds
    refine .inr (h.directories other hother otherFile hotherFile _ hneeds fun hlocation => ?_)
    rw [List.append_cancel_left hlocation, List.prefix_append_right_inj] at hupper
    refine (hapart other hother file otherFile hfile hotherFile).2 ?_
    rw [hpath]
    exact hupper.trans (List.prefix_append _ _)
  · rw [h.others _ fun other hother otherFile hotherFile hneed =>
      hneeds ⟨other, hother, otherFile, hotherFile, hneed⟩]
    by_cases hnil : upper = []
    · rw [hnil, List.append_nil]
      exact .inr hvacant.location
    · refine .inl (hvacant.empty upper hnil ?_)
      exact List.prefix_or_prefix_of_prefix hupper (List.prefix_append _ _)

/-- One more rendering that is apart from those before is written, and adds its file. -/
theorem Rendered.write (hunbounded : FileTree.Limits.Unbounded)
    (h : Rendered there missing done before tree)
    (hvacant : before.Vacant directory there missing) (hnamed : rendering.IsNamed)
    (hapart : ∀ other ∈ done, Apart rendering other) :
    Succeeds directory rendering (write tree directory rendering).value.1 ∧
      Rendered there missing (done ++ [rendering]) before
        (write tree directory rendering).value.2 := by
  obtain ⟨file, hfile⟩ := exists_emitted hnamed
  obtain ⟨front, last, -, hpath⟩ := Emitter.exists_segments_path (emitted_eq_ok hfile)
  have hnone := h.get?_eq_none hvacant hfile hapart
  obtain ⟨between, hopened, hvalue⟩ := Output.writeEmitted_of_reaches hunbounded
    (h.keeps.reaches hvacant.toReaches) (Emitter.isPlain_path (emitted_eq_ok hfile)) hpath
    (h.clear hvacant hfile hapart hpath) hnone
  rw [write_value hfile, hvalue]
  exact ⟨⟨file, hfile, rfl⟩, h.concat hfile hpath hnone hopened⟩

/-- Renderings that are apart are written one after another. -/
theorem Rendered.writeAll (hunbounded : FileTree.Limits.Unbounded) {todo : List Rendering}
    (h : Rendered there missing done before tree)
    (hvacant : before.Vacant directory there missing)
    (hnamed : ∀ rendering ∈ todo, rendering.IsNamed) (hapart : (done ++ todo).Pairwise Apart) :
    List.Forall₂ (Succeeds directory) todo (writeAll tree directory todo).value.1 ∧
      Rendered there missing (done ++ todo) before (writeAll tree directory todo).value.2 := by
  induction todo generalizing done tree with
  | nil =>
    rw [List.append_nil]
    exact ⟨.nil, h⟩
  | cons rendering todo ih =>
    have hdone : ∀ other ∈ done, Apart rendering other := fun other hother =>
      ((List.pairwise_append.mp hapart).2.2 other hother rendering List.mem_cons_self).symm
    -- the run goes on from the tree with the first one added to those that are done
    obtain ⟨hfirst, hnamedMore⟩ := List.forall_mem_cons.mp hnamed
    obtain ⟨hsucceeds, hwritten⟩ := h.write hunbounded hvacant hfirst hdone
    rw [List.append_cons] at hapart ⊢
    obtain ⟨hall, hrendered⟩ := ih hwritten hnamedMore hapart
    rw [writeAll_value]
    exact ⟨.cons hsucceeds hall, hrendered⟩

theorem Rendered.ownsFiles {renderings : List Rendering}
    (h : Rendered there missing renderings before tree)
    (hvacant : before.Vacant directory there missing) :
    OwnsFiles (there ++ missing) renderings tree := by
  rintro location bytes ⟨more, rfl⟩ hentry
  rcases h.cases (there ++ missing ++ more) with ⟨rendering, hmem, file, hfile, hlocation, hafter⟩ |
    ⟨rendering, hmem, file, hfile, -, -, hafter⟩ | ⟨-, hafter⟩
  · rw [hentry, Option.some.injEq, Entry.file.injEq] at hafter
    rw [← List.append_assoc] at hlocation
    exact ⟨rendering, hmem, file, hfile, hlocation, hafter⟩
  · rw [hentry] at hafter
    cases hafter
  · -- there was no file before
    rw [hentry, List.append_assoc] at hafter
    by_cases hnil : missing ++ more = []
    · rw [hnil, List.append_nil, hvacant.location] at hafter
      cases hafter
    · rw [hvacant.empty _ hnil (.inr (List.prefix_append _ _))] at hafter
      contradiction

/-- Renderings of different modules or with different emitters never collide: no path of theirs is
another one or a directory above it, and in every order all of them are written below a vacant
directory, each to a file of its own, with the same tree in the end. -/
theorem writeAll_of_vacant (hunbounded : FileTree.Limits.Unbounded)
    (hvacant : tree.Vacant directory there missing) {renderings : List Rendering}
    (hnamed : ∀ rendering ∈ renderings, rendering.IsNamed)
    (hkeys : (renderings.map key).Nodup) :
    renderings.Pairwise Apart ∧
      ∀ order : List Rendering, order.Perm renderings →
        List.Forall₂ (Succeeds directory) order (writeAll tree directory order).value.1 ∧
          Rendered there missing renderings tree (writeAll tree directory order).value.2 ∧
          OwnsFiles (there ++ missing) renderings (writeAll tree directory order).value.2 ∧
          (writeAll tree directory order).value.2.Same
            (writeAll tree directory renderings).value.2 := by
  -- every order adds the same to the same tree, which settles the tree
  have hall : ∀ order : List Rendering, order.Perm renderings →
      List.Forall₂ (Succeeds directory) order (writeAll tree directory order).value.1 ∧
        Rendered there missing renderings tree (writeAll tree directory order).value.2 := by
    intro order hperm
    have hapart : order.Pairwise Apart := pairwise_apart ((hperm.map key).nodup_iff.mpr hkeys)
    obtain ⟨hsucceeds, hrendered⟩ := (rendered_nil tree).writeAll hunbounded hvacant
      (fun rendering hmem => hnamed rendering (hperm.mem_iff.mp hmem)) hapart
    exact ⟨hsucceeds, hrendered.of_perm hperm⟩
  refine ⟨pairwise_apart hkeys, fun order hperm => ?_⟩
  obtain ⟨hsucceeds, hrendered⟩ := hall order hperm
  exact ⟨hsucceeds, hrendered, hrendered.ownsFiles hvacant,
    hrendered.same (hall renderings (.refl renderings)).2⟩

end Writing

def coverSample : Module :=
  ⟨"a.b", [⟨"spread", .function, "Spreads.", "(a, *b)", by decide⟩],
    [⟨"REACH", .variable, "", "int", by decide⟩]⟩

def coverStub : EmittedFile where
  module := "a.b"
  path := "a/b.pyi"
  content := "# Type stubs for module `a.b`.\n# Generated by pygen. Do not edit.\n\n" ++
    "def spread(a, *b):\n    \"\"\"Spreads.\"\"\"\n    ...\n\nREACH: int\n"

def pairSample : List Rendering :=
  [⟨.stub, {}, coverSample⟩, ⟨.markdown, {}, coverSample⟩]

def roomSample : FileTree :=
  FileTree.empty.put [['o', 'u', 't']] .directory

theorem writeAll_pairSample :
    @FileTree.Limits.Unbounded .unlimited ∧
      @FileTree.Vacant .unlimited roomSample "out" [['o', 'u', 't']] [] ∧
      (∀ rendering ∈ pairSample, rendering.IsNamed) ∧ (pairSample.map key).Nodup ∧
      pairSample.Pairwise Apart ∧
      List.Forall₂ (Succeeds "out") pairSample.reverse
        (@writeAll .unlimited roomSample "out" pairSample.reverse).value.1 ∧
      OwnsFiles [['o', 'u', 't']] pairSample
        (@writeAll .unlimited roomSample "out" pairSample.reverse).value.2 ∧
      (@writeAll .unlimited roomSample "out" pairSample.reverse).value.2.get?
        [['o', 'u', 't'], ['a'], "b.pyi".toList] = some (.file coverStub.content.toUTF8) := by
  let _ : FileTree.Limits := .unlimited
  have hunbounded : FileTree.Limits.Unbounded := ⟨rfl, rfl⟩
  have hvacant : roomSample.Vacant "out" [['o', 'u', 't']] [] := by
    refine FileTree.vacant_of_resolve (by rfl) (by rfl) fun names hne => ?_
    rw [roomSample, FileTree.get?_put _ _ _ _ (by simp), if_neg (by simpa using hne)]
    rfl
  have hnamed : ∀ rendering ∈ pairSample, rendering.IsNamed := by decide +kernel
  have hkeys : (pairSample.map key).Nodup := by decide +kernel
  obtain ⟨hapart, hall⟩ := writeAll_of_vacant hunbounded hvacant hnamed hkeys
  obtain ⟨hsucceeds, hrendered, howns, -⟩ :=
    hall pairSample.reverse (List.reverse_perm pairSample)
  have hstub := hrendered.files ⟨.stub, {}, coverSample⟩ List.mem_cons_self coverStub
    (by decide +kernel)
  have hpath : segments coverStub.path = [['a'], "b.pyi".toList] := by decide +kernel
  rw [hpath] at hstub
  exact ⟨hunbounded, hvacant, hnamed, hkeys, hapart, hsucceeds, howns, hstub⟩

end Rendering

end ModuleSurface
