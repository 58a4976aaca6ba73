import ModuleSurface.Proofs.FileTree.Descend
import ModuleSurface.Proofs.Output.Contained

/-!
# Fresh — writing a file that is not there yet

A file that is not there is written with the directories above it, if nothing but directories
stands in its way (`write_of_descends`).  Below an output directory the way to it is that of the
directory and then that of the file (`Reaches.descends`), whether or not the directory is there.
-/

namespace ModuleSurface

open ModuleSurface.Path (Name kept isIdle above segments)
open FileTree (Opened)

/-! ## 1. Writing a file that is not there -/

namespace Output

variable [FileTree.Limits] {tree : FileTree} {path : String} {there : Location}
  {names : List Name} {last : Name}

theorem makeParent_of_descends (hunbounded : FileTree.Limits.Unbounded)
    (h : tree.Descends path there names last) (hthere : tree.get? there = some .directory)
    (hclear : tree.Clear there names) :
    ∃ after, makeParent tree path = (.ok (), after) ∧ Opened there names tree after := by
  obtain ⟨parent, hparent, habove⟩ := FileTree.exists_parent hunbounded h hthere
  unfold makeParent
  rw [hparent]
  dsimp only
  rcases habove with ⟨rfl, hreached⟩ | ⟨front, name, rfl, hdescends⟩
  · have hexists : parent = "" ∨ tree.pathExists parent = true := by
      refine hreached.imp_right fun hreached => ?_
      rw [FileTree.pathExists, hreached]
      rfl
    rw [if_pos hexists]
    exact ⟨tree, rfl, .refl (FileTree.stands_nil hthere)⟩
  · rw [if_congr (or_iff_right hdescends.ne_empty) rfl rfl]
    rcases FileTree.resolve_of_descends hunbounded hdescends hthere hclear with
      ⟨hstands, hreached⟩ | ⟨-, hmissing⟩
    · rw [if_pos (by rw [FileTree.pathExists, hreached]; rfl)]
      exact ⟨tree, rfl, .refl hstands⟩
    · -- the bound of the list of ancestors counts segments, of which there are enough
      rw [if_neg (by rw [FileTree.pathExists, hmissing]; exact Bool.false_ne_true)]
      obtain ⟨known, more, hsegments, -, -, hmore⟩ := hdescends.exists_split
      have hlength : front.length < (segments parent).length := by
        have hkept : front.length ≤ more.length := by
          rw [← hmore]
          exact List.length_filter_le _ _
        rw [hsegments]
        simp only [List.length_append, List.length_singleton]
        omega
      obtain ⟨after, hmade, hopened⟩ :=
        FileTree.makeEach_of_descends hunbounded hdescends hthere hclear hlength
      rw [FileTree.makeDirectories, Path.ancestors, hmade]
      exact ⟨after, rfl, hopened⟩

theorem write_of_descends (hunbounded : FileTree.Limits.Unbounded)
    (h : tree.Descends path there names last) (hthere : tree.get? there = some .directory)
    (hclear : tree.Clear there names) (hnone : tree.get? (there ++ names ++ [last]) = none)
    (content : String) :
    ∃ between, Opened there names tree between ∧
      (write false tree path content).value = (.ok (.written path content.utf8ByteSize),
        between.put (there ++ names ++ [last]) (.file content.toUTF8)) := by
  -- the file is not there, so it does not hold its text already
  have hholds : holds tree path content = false := by
    have hclearFile := FileTree.clear_concat hclear hnone
    rcases FileTree.resolve_of_descends hunbounded h hthere hclearFile with
      ⟨hstands, -⟩ | ⟨-, hmissing⟩
    · have hdirectory := hstands _ (List.prefix_refl _)
      rw [← List.append_assoc, hnone] at hdirectory
      contradiction
    · rw [holds, FileTree.readText, hmissing]
      rfl
  obtain ⟨between, hmade, hopened⟩ := makeParent_of_descends hunbounded h hthere hclear
  have hwrite := FileTree.writeText_of_stands hunbounded (hopened.grows.keeps.descends h)
    hopened.stands (hopened.get?_concat hnone) content
  refine ⟨between, hopened, ?_⟩
  rw [write, if_neg Bool.false_ne_true, hholds, if_neg Bool.false_ne_true, replace, hmade]
  dsimp only
  rw [hwrite]
  rfl

end Output

/-! ## 2. Writing below a directory -/

namespace FileTree

variable [Limits]

/-- A directory path that leads to a location, and on through names that may be missing. -/
structure Reaches (tree : FileTree) (directory : String) (there : Location)
    (missing : List Name) : Prop where
  null : '\x00' ∉ directory.toList
  exists_split : ∃ known more, segments directory = known ++ more ∧
    tree.walk (tree.origin directory) known = .ok there ∧ above ∉ more ∧ kept more = missing
  location : tree.get? there = some .directory

/-- A directory path that leads to a location with nothing below it.  The directory itself may be
missing, and then nothing stands at the names on the way to it. -/
structure Vacant (tree : FileTree) (directory : String) (there : Location)
    (missing : List Name) : Prop extends Reaches tree directory there missing where
  empty : ∀ names, names ≠ [] → names <+: missing ∨ missing <+: names →
    tree.get? (there ++ names) = none

variable {tree before after : FileTree} {directory : String} {there : Location}
  {missing : List Name}

theorem vacant_of_resolve (h : tree.resolve directory = .ok there)
    (hdirectory : tree.get? there = some .directory)
    (hempty : ∀ names, names ≠ [] → tree.get? (there ++ names) = none) :
    tree.Vacant directory there [] := by
  unfold resolve at h
  split at h
  · contradiction
  · rename_i hfault
    have hnull : '\x00' ∉ directory.toList := by
      intro hmem
      rw [pathFault?, if_pos (by simpa using hmem)] at hfault
      contradiction
    exact ⟨⟨hnull, ⟨segments directory, [], (List.append_nil _).symm, h, by simp, rfl⟩, hdirectory⟩,
      fun names hne _ => hempty names hne⟩

theorem Keeps.reaches (h : Keeps before after) (hreaches : before.Reaches directory there missing) :
    after.Reaches directory there missing := by
  obtain ⟨known, more, hsegments, hwalk, hmore⟩ := hreaches.exists_split
  refine ⟨hreaches.null, ⟨known, more, hsegments, ?_, hmore⟩, h.entries _ _ hreaches.location⟩
  rw [origin, h.workingDirectory]
  exact h.retains.walk_eq_ok hwalk

/-- What a join drops at the end of a directory's text does not matter to where it leads. -/
theorem exists_split_of_append_idle {location : Location} {known more front tail : List Name}
    (h : known ++ more = front ++ tail) (htail : ∀ name ∈ tail, isIdle name = true)
    (hwalk : tree.walk location known = .ok there) (habove : above ∉ more) :
    ∃ known' more', front = known' ++ more' ∧ tree.walk location known' = .ok there ∧
      above ∉ more' ∧ kept more' = kept more := by
  rcases List.append_eq_append_iff.mp h with ⟨between, rfl, rfl⟩ | ⟨between, rfl, rfl⟩
  · -- the dropped names are some of those behind the location
    refine ⟨known, between, rfl, hwalk, fun hmem => habove (List.mem_append_left _ hmem), ?_⟩
    rw [Path.kept_append, Path.kept_of_idle htail, List.append_nil]
  · -- all the names behind the location are dropped, and perhaps more
    have hbetween : ∀ name ∈ between, isIdle name = true := fun name hname =>
      htail name (List.mem_append_left _ hname)
    have hmore : ∀ name ∈ more, isIdle name = true := fun name hname =>
      htail name (List.mem_append_right _ hname)
    refine ⟨front, [], (List.append_nil _).symm, walk_of_append_idle hwalk hbetween, by simp, ?_⟩
    rw [Path.kept_of_idle hmore]
    rfl

/-- A path below a directory leads on from where the directory does. -/
theorem Reaches.descends (h : tree.Reaches directory there missing) {path : String}
    (hplain : Path.IsPlain path) {front : List Name} {last : Name}
    (hpath : segments path = front ++ [last]) :
    tree.Descends (Path.join directory path) there (missing ++ front) last := by
  obtain ⟨known, more, hsegments, hwalk, habove, hmissing⟩ := h.exists_split
  obtain ⟨head, tail, hdirectory, htail, hjoin⟩ := Path.exists_segments_join directory path
  have hfront : kept front = front := by
    refine List.filter_eq_self.mpr fun name hname => ?_
    rw [(hplain name (hpath ▸ List.mem_append_left _ hname)).1]
    rfl
  have hfrontAbove : above ∉ front := fun hmem =>
    (hplain above (hpath ▸ List.mem_append_left _ hmem)).2.1 rfl
  have hlast := hplain last (by simp [hpath])
  obtain ⟨known', more', hhead, hwalk', habove', hmissing'⟩ :=
    exists_split_of_append_idle (hsegments.symm.trans hdirectory) htail hwalk habove
  -- the names of the file come behind those of the directory, which may be missing as well
  refine ⟨?_, ⟨known', more' ++ front, ?_, ?_, ?_, ?_⟩, ?_⟩
  · intro hmem
    rcases Path.mem_join hmem with hmem | hslash | hmem
    · exact h.null hmem
    · exact absurd hslash (by decide)
    · exact hplain.null hmem
  · rw [hjoin, hpath, hhead]
    simp only [List.append_assoc]
  · rw [origin_join hplain.not_leadsOut]
    exact hwalk'
  · simp [habove', hfrontAbove]
  · rw [Path.kept_append, hmissing', hmissing, hfront]
  · exact isReserved_eq_false_iff.mpr ⟨hlast.1, hlast.2.1⟩

end FileTree

/-- An emitted file that is not there yet is written below a directory. -/
theorem Output.writeEmitted_of_reaches [FileTree.Limits]
    (hunbounded : FileTree.Limits.Unbounded) {tree : FileTree} {directory : String}
    {there : Location} {missing front : List Name} {last : Name} {file : EmittedFile}
    (h : tree.Reaches directory there missing) (hplain : Path.IsPlain file.path)
    (hpath : segments file.path = front ++ [last]) (hclear : tree.Clear there (missing ++ front))
    (hnone : tree.get? (there ++ (missing ++ segments file.path)) = none) :
    ∃ between, Opened there (missing ++ front) tree between ∧
      (writeEmitted false tree directory file).value =
        (.ok (.written (Path.join directory file.path) file.content.utf8ByteSize),
          between.put (there ++ (missing ++ segments file.path)) (.file file.content.toUTF8)) := by
  have hplace :
      there ++ (missing ++ segments file.path) = there ++ (missing ++ front) ++ [last] := by
    rw [hpath, List.append_assoc, List.append_assoc]
  rw [hplace] at hnone ⊢
  rw [writeEmitted, if_pos ((Path.isContained_eq_true_iff file.path).mpr hplain.not_leadsOut)]
  exact write_of_descends hunbounded (h.descends hplain hpath) h.location hclear hnone file.content

end ModuleSurface
