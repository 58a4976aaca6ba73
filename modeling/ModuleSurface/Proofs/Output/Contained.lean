import ModuleSurface.Output
import ModuleSurface.Proofs.FileTree.Frame

/-!
# Contained — what writing an emitted file does to a tree

An emitted file is refused exactly if its path could lead out of the output directory
(`LeadsOut`).  Otherwise the one file that can change is where the path leads below that
directory, and new directories stand above it or are passed through by the text of the output
directory before it goes up again (`writeEmitted_confined`).
-/

namespace ModuleSurface

open ModuleSurface.Path (Name Component follow kept isIdle above here segments components
  component? isContained)

/-! ## 1. Paths that are refused -/

namespace Path

/-- Whether a path, cut at its slashes, could lead out of the directory it is taken from. -/
def LeadsOut (path : String) : Prop :=
  path = "" ∨ path.toList.head? = some '/' ∨ (segments path).head? = some here ∨
    above ∈ segments path

theorem all_plain_component?_iff (names : List Name) :
    (names.filterMap component?).all (fun | .plain _ => true | _ => false) = true ↔
      above ∉ names := by
  induction names with
  | nil => simp
  | cons name names ih =>
    rw [List.filterMap_cons, List.mem_cons, not_or, ← ih]
    unfold component?
    by_cases hidle : isIdle name = true
    · have hne : ¬above = name := by
        rintro rfl
        contradiction
      simp [hidle, hne]
    · by_cases habove : name = above
      · simp [habove, show isIdle above = false from rfl]
      · simp [hidle, habove, Ne.symm habove]

/-- The check of the components looks for the same as the cut text shows. -/
theorem isContained_eq_true_iff (path : String) : isContained path = true ↔ ¬LeadsOut path := by
  unfold isContained components LeadsOut
  by_cases hempty : path = ""
  · simp [hempty]
  · cases hsegments : segments path with
    | nil => exact absurd hsegments (Text.split_ne_nil _ _)
    | cons first rest =>
      have habsolute : path.toList.head? = some '/' ↔ first = [] := by
        rw [← isAbsolute_iff hempty hsegments, isAbsolute, beq_iff_eq]
      -- the first segment is an exception: there the root and a lone point are components too
      have hrest := all_plain_component?_iff rest
      by_cases hroot : first = []
      · simp [hempty, hroot, habsolute]
      · by_cases hhere : first = here
        · simp [hempty, hhere, show here ≠ [] from List.cons_ne_nil _ _]
        · have hidle : isIdle first = false := by simp [isIdle, hroot, hhere]
          rw [if_neg hempty]
          dsimp only
          rw [if_neg (by simpa using hroot), if_neg hhere]
          by_cases habove : first = above
          · rw [habove, show component? above = some .above from rfl]
            simp
          · have hplain : component? first = some (.plain first) := by
              simp [component?, hidle, habove]
            rw [hplain, Option.toList_some, List.singleton_append, List.isEmpty_cons, List.all_cons,
              Bool.not_false, Bool.true_and, Bool.true_and]
            refine hrest.trans ?_
            simp [hempty, habsolute, hroot, hhere, Ne.symm habove]

theorem IsPlain.not_leadsOut {path : String} (h : IsPlain path) : ¬LeadsOut path := by
  rintro (rfl | hroot | hhere | habove)
  · exact absurd (h [] (by simp [segments_empty])).1 (by decide)
  · cases hsegments : segments path with
    | nil => exact absurd hsegments (Text.split_ne_nil _ _)
    | cons first rest =>
      have hne : path ≠ "" := by
        rintro rfl
        contradiction
      have hfirst : first = [] := by
        rw [← isAbsolute_iff hne hsegments, isAbsolute, hroot]
        rfl
      exact absurd (h first (by simp [hsegments])).1 (by rw [hfirst]; decide)
  · exact absurd (h here (List.mem_of_mem_head? hhere)).1 (by decide)
  · exact (h above habove).2.1 rfl

/-- A path that does not lead out has a name in it. -/
theorem kept_segments_ne_nil {path : String} (h : ¬LeadsOut path) : kept (segments path) ≠ [] := by
  unfold LeadsOut at h
  cases hsegments : segments path with
  | nil => exact absurd hsegments (Text.split_ne_nil _ _)
  | cons first rest =>
    have hempty : path ≠ "" := fun hempty => h (.inl hempty)
    have hroot : first ≠ [] := by
      rw [ne_eq, ← isAbsolute_iff hempty hsegments, isAbsolute, beq_iff_eq]
      exact fun habsolute => h (.inr (.inl habsolute))
    have hhere : first ≠ here := fun hhere => h (.inr (.inr (.inl (by rw [hsegments, hhere]; rfl))))
    have hidle : isIdle first = false := by simp [isIdle, hroot, hhere]
    simp [kept, hidle]

end Path

open ModuleSurface.Path (LeadsOut)

/-! ## 2. Where an emitted file stands -/

namespace FileTree

def placeBelow (tree : FileTree) (directory path : String) : Location :=
  tree.place directory ++ kept (segments path)

/-- Whether the text of a directory passes through a location before it goes up again. -/
def PassedThrough (tree : FileTree) (directory : String) (location : Location) : Prop :=
  ∃ front rest, segments directory = front ++ rest ∧ above ∈ rest ∧
    location = follow (tree.origin directory) front

/-- Where new directories may stand when a file is written below a directory: above the file, or
where the text of the directory passes through.  The directories above the file are told by its
place, not by the text of the path (`IsAncestor`): the question here is whether what is made stays
with the file, and a path that goes up comes through directories that are not above its file.  Those
are named apart. -/
def OnTheWay (tree : FileTree) (directory path : String) (location : Location) : Prop :=
  (location <+: tree.placeBelow directory path ∧ location ≠ tree.placeBelow directory path) ∨
    tree.PassedThrough directory location

variable {tree : FileTree} {directory path : String}

theorem isAbsolute_of_not_leadsOut (h : ¬LeadsOut path) : Path.isAbsolute path = false := by
  rw [Bool.eq_false_iff]
  intro habsolute
  exact h (.inr (.inl (beq_iff_eq.mp habsolute)))

theorem above_not_mem_of_not_leadsOut (h : ¬LeadsOut path) : above ∉ segments path :=
  fun hmem => h (.inr (.inr (.inr hmem)))

theorem origin_join (h : ¬LeadsOut path) :
    tree.origin (Path.join directory path) = tree.origin directory := by
  rw [origin, origin, Path.isAbsolute_join directory (isAbsolute_of_not_leadsOut h)]

/-- The raw text of a joined path leads below the directory, as the checked components do. -/
theorem place_join (h : ¬LeadsOut path) :
    tree.place (Path.join directory path) = tree.placeBelow directory path := by
  obtain ⟨front, tail, hdirectory, htail, hjoin⟩ := Path.exists_segments_join directory path
  rw [place, origin_join h, hjoin, Path.follow_append,
    Path.follow_of_not_mem (above_not_mem_of_not_leadsOut h), placeBelow, place, hdirectory,
    Path.follow_append, Path.follow_of_idle htail]

theorem onTheWay_of_above {upper : String} (h : ¬LeadsOut path)
    (hupper : Path.Above upper (Path.join directory path)) :
    tree.OnTheWay directory path (tree.place upper) := by
  obtain ⟨front, tail, hdirectory, htail, hjoin⟩ := Path.exists_segments_join directory path
  obtain ⟨rest, hrest, name, hname, hidle⟩ := hupper.exists_rest
  have horigin : tree.origin upper = tree.origin directory := by
    rw [origin, hupper.isAbsolute_eq, ← origin_join h, origin]
  have habove := above_not_mem_of_not_leadsOut h
  have hplace : tree.place directory = follow (tree.origin directory) front := by
    rw [place, hdirectory, Path.follow_append, Path.follow_of_idle htail]
  rw [hjoin, List.append_eq_append_iff] at hrest
  unfold OnTheWay placeBelow
  rw [place, horigin]
  rcases hrest with ⟨more, hupper, hrest⟩ | ⟨more, hfront, hrest⟩
  · -- the path ends inside the emitted path, before its last name
    have hmore : above ∉ more := fun hmem => habove (hrest ▸ List.mem_append_left _ hmem)
    have hkept : kept rest ≠ [] := List.ne_nil_of_mem
      (List.mem_filter.mpr ⟨hname, by rw [hidle]; rfl⟩)
    refine .inl ?_
    rw [hupper, Path.follow_append, ← hplace, Path.follow_of_not_mem hmore, hrest, Path.kept_append,
      ← List.append_assoc]
    exact ⟨List.prefix_append _ _, by simpa using hkept⟩
  · -- the path ends inside the text of the directory
    by_cases hmore : above ∈ more
    · refine .inr ⟨segments upper, more ++ tail, ?_, List.mem_append_left _ hmore, rfl⟩
      rw [hdirectory, hfront, List.append_assoc]
    · have hkept := Path.kept_segments_ne_nil h
      refine .inl ?_
      rw [hplace, hfront, Path.follow_append, Path.follow_of_not_mem hmore, List.append_assoc]
      exact ⟨List.prefix_append _ _, by simp [hkept]⟩

end FileTree

/-! ## 3. Writing -/

namespace Output

open FileTree (Grows)

/-- A tree that differs from another one by no more than an emitted file below a directory and new
directories on the way to it. -/
structure Confined (directory : String) (file : EmittedFile) (before after : FileTree) : Prop where
  workingDirectory : after.workingDirectory = before.workingDirectory
  changed : ∀ location, after.get? location ≠ before.get? location →
    (location = before.placeBelow directory file.path ∧
        before.get? location ≠ some .directory ∧
        after.get? location = some (.file file.content.toUTF8)) ∨
      (before.OnTheWay directory file.path location ∧
        before.get? location = none ∧ after.get? location = some .directory)

theorem Confined.refl (directory : String) (file : EmittedFile) (tree : FileTree) :
    Confined directory file tree tree :=
  ⟨rfl, fun _ h => absurd rfl h⟩

theorem confined_of_grows {directory : String} {file : EmittedFile} {before after : FileTree}
    (h : Grows (before.OnTheWay directory file.path) before after) :
    Confined directory file before after := by
  refine ⟨h.workingDirectory, fun location hchanged => ?_⟩
  rcases h.entries location with hsame | ⟨hnone, hnew, hway⟩
  · exact absurd hsame hchanged
  · exact .inr ⟨hway, hnone, hnew⟩

section Writing

variable [FileTree.Limits]

theorem grows_makeParent {MayStand : Location → Prop} {tree : FileTree} {path : String}
    (h : ∀ upper, Path.Above upper path → MayStand (tree.place upper)) :
    Grows MayStand tree (makeParent tree path).2 := by
  unfold makeParent
  split
  · exact .refl tree
  · rename_i parent hparent
    split
    · exact .refl tree
    · have hgrows : Grows MayStand tree (tree.makeDirectories parent).2 := by
        refine FileTree.grows_makeEach fun upper hupper => h upper ?_
        exact Path.above_of_mem_ancestorsFrom hparent hupper
      split <;> rename_i hmade <;> rwa [hmade] at hgrows

/-- What replacing the text of a file does: it makes directories above the file, and then writes
the file itself or fails. -/
theorem exists_grows_replace {MayStand : Location → Prop} {tree : FileTree} {path : String}
    (h : Grows MayStand tree (makeParent tree path).2) (content : String) :
    ∃ between, Grows MayStand tree between ∧
      ((∃ fault, (replace tree path content).value = (.error fault, between)) ∨
        ∃ after, between.writeText path content = .ok after ∧
          (replace tree path content).value =
            (.ok (.written path content.utf8ByteSize), after)) := by
  unfold replace
  split
  · rename_i hmade
    rw [hmade] at h
    exact ⟨_, h, .inl ⟨_, rfl⟩⟩
  · rename_i hmade
    rw [hmade] at h
    split
    · exact ⟨_, h, .inl ⟨_, rfl⟩⟩
    · rename_i hwrite
      exact ⟨_, h, .inr ⟨_, hwrite, rfl⟩⟩

/-- What writing a text to a file does: it makes no more than directories above the file, or it
makes these and then writes the file itself. -/
theorem exists_grows_write (dryRun : Bool) {MayStand : Location → Prop} {tree : FileTree}
    {path : String} (h : Grows MayStand tree (makeParent tree path).2) (content : String) :
    ∃ between, Grows MayStand tree between ∧
      ((∃ result, (write dryRun tree path content).value = (result, between)) ∨
        ∃ after, between.writeText path content = .ok after ∧
          (write dryRun tree path content).value =
            (.ok (.written path content.utf8ByteSize), after)) := by
  unfold write
  split
  · exact ⟨tree, .refl tree, .inl ⟨_, rfl⟩⟩
  · split
    · exact ⟨tree, .refl tree, .inl ⟨_, rfl⟩⟩
    · obtain ⟨between, hgrows, ⟨fault, hfails⟩ | hwritten⟩ := exists_grows_replace h content
      · exact ⟨between, hgrows, .inl ⟨_, hfails⟩⟩
      · exact ⟨between, hgrows, .inr hwritten⟩

/-- Why a text is not written: the directories above its file cannot be made, or they can and the
file cannot be written. -/
inductive Refused (path content : String) (before : FileTree) : WriteFault → FileTree → Prop
  | directory {parent : String} {fault : FileFault} {after : FileTree}
      (hparent : Path.parent? path = some parent)
      (hmake : before.makeDirectories parent = (.error fault, after)) :
      Refused path content before (.createDirectory parent fault) after
  | file {fault : FileFault} {after : FileTree} (hmade : makeParent before path = (.ok (), after))
      (hwrite : after.writeText path content = .error fault) :
      Refused path content before (.writeFile path fault) after

theorem refused_of_makeParent {before after : FileTree} {path : String} {fault : WriteFault}
    (h : makeParent before path = (.error fault, after)) (content : String) :
    Refused path content before fault after := by
  unfold makeParent at h
  split at h
  · cases h
  · rename_i parent hparent
    split at h
    · cases h
    · split at h
      · cases h
      · rename_i hmake
        cases h
        exact .directory hparent hmake

theorem refused_of_replace {before after : FileTree} {path content : String} {fault : WriteFault}
    (h : (replace before path content).value = (.error fault, after)) :
    Refused path content before fault after := by
  unfold replace at h
  split at h
  · rename_i hmade
    cases h
    exact refused_of_makeParent hmade content
  · rename_i hmade
    split at h
    · rename_i hwrite
      cases h
      exact .file hmade hwrite
    · cases h

theorem confined_of_writeText {directory : String} {file : EmittedFile}
    {before between after : FileTree} (hout : ¬LeadsOut file.path)
    (h : Grows (before.OnTheWay directory file.path) before between)
    (hwrite : between.writeText (Path.join directory file.path) file.content = .ok after) :
    Confined directory file before after := by
  obtain ⟨hroot, hdirectory, -, rfl⟩ := FileTree.writeText_eq_ok hwrite
  rw [h.place_eq, FileTree.place_join hout] at hroot hdirectory ⊢
  refine ⟨h.workingDirectory, fun location hchanged => ?_⟩
  rw [FileTree.get?_put _ _ _ _ hroot] at hchanged ⊢
  by_cases hlocation : location = before.placeBelow directory file.path
  · rw [if_pos hlocation]
    refine .inl ⟨hlocation, ?_, rfl⟩
    -- a directory that stood there before would still stand there
    intro hbefore
    rw [← hlocation] at hdirectory
    rcases h.entries location with hsame | ⟨hnone, -⟩
    · exact hdirectory (hsame.trans hbefore)
    · rw [hnone] at hbefore
      contradiction
  · rw [if_neg hlocation] at hchanged ⊢
    exact (confined_of_grows h).changed location hchanged

theorem confined_write (dryRun : Bool) (tree : FileTree) (directory : String) {file : EmittedFile}
    (hout : ¬LeadsOut file.path) :
    Confined directory file tree
      (write dryRun tree (Path.join directory file.path) file.content).value.2 := by
  have hmade : Grows (tree.OnTheWay directory file.path) tree
      (makeParent tree (Path.join directory file.path)).2 :=
    grows_makeParent fun upper hupper => FileTree.onTheWay_of_above hout hupper
  obtain ⟨between, hgrows, ⟨result, hafter⟩ | ⟨after, hwrite, hafter⟩⟩ :=
    exists_grows_write dryRun hmade file.content
  · rw [hafter]
    exact confined_of_grows hgrows
  · rw [hafter]
    exact confined_of_writeText hout hgrows hwrite

theorem write_ne_outside (dryRun : Bool) (tree : FileTree) (path content other : String) :
    (write dryRun tree path content).value.1 ≠ .error (.outside other) := by
  unfold write
  split
  · simp
  · split
    · simp
    · intro h
      cases refused_of_replace (Prod.ext h rfl)

/-- An emitted file is refused exactly if its path could lead out of the output directory, and then
as in a dry run nothing changes.  If it is not refused, the only location that can get another text
is where the path leads below the output directory, and what is new otherwise is a directory on the
way there. -/
theorem writeEmitted_confined (dryRun : Bool) (tree : FileTree) (directory : String)
    (file : EmittedFile) :
    ((writeEmitted dryRun tree directory file).value.1 = .error (.outside file.path) ↔
        LeadsOut file.path) ∧
      (LeadsOut file.path ∨ dryRun = true →
        (writeEmitted dryRun tree directory file).value.2 = tree) ∧
      Confined directory file tree (writeEmitted dryRun tree directory file).value.2 := by
  have hcontained := Path.isContained_eq_true_iff file.path
  unfold writeEmitted
  by_cases hout : LeadsOut file.path
  · rw [if_neg (by rw [hcontained]; exact not_not_intro hout)]
    exact ⟨⟨fun _ => hout, fun _ => rfl⟩, fun _ => rfl, .refl directory file tree⟩
  · rw [if_pos (hcontained.mpr hout)]
    refine ⟨⟨fun h => absurd h (write_ne_outside dryRun tree _ _ _), fun h => absurd h hout⟩, ?_,
      confined_write dryRun tree directory hout⟩
    rintro (h | rfl)
    · exact absurd h hout
    · rfl

end Writing

/-- The text of the directory is followed as it stands: a missing directory in it is made although
the way leads out of it again, and the file is not below it. -/
theorem writeEmitted_passedSample :
    isContained "f" = true ∧ FileTree.empty.placeBelow "x/../y" "f" = [['y'], ['f']] ∧
      FileTree.empty.get? [['x']] = none ∧
      (writeEmitted false FileTree.empty "x/../y" ⟨"m", "f", "c"⟩).value.2.get? [['x']] =
        some .directory := by
  decide +kernel

end Output

end ModuleSurface
