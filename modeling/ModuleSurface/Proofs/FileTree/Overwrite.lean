import ModuleSurface.Proofs.FileTree.Closed
import ModuleSurface.Proofs.FileTree.Descend

/-!
# Overwrite — paths that lead to something, and files that get another text

A path that leads to something leads through the path above it (`exists_resolve_parent`), and the
path of a file that was written leads to that file (`resolve_of_writeText`).  Where everything
stands in a directory (`IsClosed`), a file whose text can be read can get another text, and nothing
else is touched (`exists_rewritten`).
-/

namespace ModuleSurface

open ModuleSurface.Path (Name Above isIdle above segments)

/-! ## 1. Texts -/

theorem Text.join_initial (separator : List Char) {front pieces : List (List Char)}
    (h : front <+: pieces) : Text.join separator front <+: Text.join separator pieces := by
  induction front generalizing pieces with
  | nil => exact List.nil_prefix
  | cons piece front ih =>
    obtain ⟨more, rfl, hmore⟩ := List.cons_prefix_iff.mp h
    cases front with
    | nil =>
      cases more with
      | nil => exact List.prefix_refl _
      | cons next more => exact ⟨_, (List.append_assoc ..).symm⟩
    | cons second front =>
      obtain ⟨rest, rfl, -⟩ := List.cons_prefix_iff.mp hmore
      exact (List.prefix_append_right_inj _).mpr (ih hmore)

theorem Path.Above.toList_initial {upper path : String} (h : Above upper path) :
    upper.toList <+: path.toList := by
  obtain ⟨rest, hrest, -⟩ := h.exists_rest
  have hjoin := Text.join_initial ['/'] (List.prefix_append (segments upper) rest)
  rwa [← hrest, segments, segments, Text.join_split, Text.join_split] at hjoin

theorem Text.fromUTF8?_toUTF8 (text : String) : String.fromUTF8? text.toUTF8 = some text :=
  dif_pos text.isValidUTF8

theorem Text.toUTF8_of_fromUTF8? {bytes : ByteArray} {text : String}
    (h : String.fromUTF8? bytes = some text) : bytes = text.toUTF8 := by
  unfold String.fromUTF8? at h
  split at h
  · rw [← Option.some.inj h]
    rfl
  · contradiction

namespace FileTree

variable {tree : FileTree} {path : String} {location : Location}

theorem ne_nil_of_file {bytes : ByteArray} (h : tree.get? location = some (.file bytes)) :
    location ≠ [] := by
  rintro rfl
  simp [get?] at h

/-! ## 2. Paths that lead to something -/

variable [Limits]

/-- A text that begins a path can be followed if the path can. -/
theorem pathFault?_of_initial {upper : String} (hpath : pathFault? path = none) (hne : upper ≠ "")
    (h : upper.toList <+: path.toList) : pathFault? upper = none := by
  obtain ⟨rest, hrest⟩ := h
  have hwhole : path = upper ++ String.ofList rest := by
    rw [← String.toList_inj, String.toList_append, String.toList_ofList, hrest]
  have hsize : upper.utf8ByteSize ≤ path.utf8ByteSize := by
    rw [hwhole, String.utf8ByteSize_append]
    exact Nat.le_add_right _ _
  unfold pathFault? at hpath ⊢
  split at hpath
  · contradiction
  · rename_i hnull
    split at hpath
    · contradiction
    · split at hpath
      · contradiction
      · rename_i hlong
        have hupperNull : ¬upper.toList.contains '\x00' = true := by
          rw [← hrest, List.contains_append, Bool.or_eq_true, not_or] at hnull
          exact hnull.1
        -- a shorter path is below the limit if the longer one is
        have hupperLong : ¬isLongPath upper = true := by
          simp only [isLongPath, Option.any_eq_true, decide_eq_true_eq, not_exists, not_and]
            at hlong ⊢
          intro limit hlimit hover
          exact hlong limit hlimit (Nat.le_trans hover hsize)
        rw [if_neg hupperNull, if_neg hne, if_neg hupperLong]

theorem resolve_eq_ok_iff :
    tree.resolve path = .ok location ↔
      pathFault? path = none ∧ tree.walk (tree.origin path) (segments path) = .ok location := by
  unfold resolve
  cases pathFault? path <;> simp

theorem eq_place_of_resolve (h : tree.resolve path = .ok location) : location = tree.place path :=
  walk_eq_ok (resolve_eq_ok_iff.mp h).2

theorem Retains.resolve_eq_ok {before after : FileTree} (h : Retains before after)
    (hresolve : before.resolve path = .ok location) : after.resolve path = .ok location := by
  obtain ⟨hfault, hwalk⟩ := resolve_eq_ok_iff.mp hresolve
  rw [resolve_eq_ok_iff, h.origin_eq]
  exact ⟨hfault, h.walk_eq_ok hwalk⟩

theorem exists_resolve_parent {parent : String} (h : tree.resolve path = .ok location)
    (hparent : Path.parent? path = some parent) :
    parent = "" ∨ ∃ next, tree.resolve parent = .ok next := by
  obtain ⟨hfault, hwalk⟩ := resolve_eq_ok_iff.mp h
  rcases Path.parent?_cases hparent with rfl | ⟨rfl, habsolute⟩ | habove
  · exact .inl rfl
  · -- the segments of the root are not the first ones of the path, but its text is
    have hinitial : "/".toList <+: path.toList := by
      obtain ⟨rest, hrest⟩ := List.head?_eq_some_iff.mp (beq_iff_eq.mp habsolute)
      exact ⟨rest, hrest.symm⟩
    have hidle : ∀ name ∈ segments "/", isIdle name = true := by decide +kernel
    have horigin : tree.origin "/" = [] := if_pos (by decide +kernel)
    refine .inr ⟨[], resolve_eq_ok_iff.mpr ⟨pathFault?_of_initial hfault (by decide) hinitial, ?_⟩⟩
    rw [horigin]
    exact walk_of_idle hidle rfl
  · obtain ⟨rest, hrest, -⟩ := habove.exists_rest
    rw [hrest] at hwalk
    obtain ⟨next, hnext, -⟩ := exists_walk_of_append hwalk
    rw [origin, ← habove.isAbsolute_eq] at hnext
    exact .inr ⟨next, resolve_eq_ok_iff.mpr
      ⟨pathFault?_of_initial hfault habove.ne_empty habove.toList_initial, hnext⟩⟩

/-- What a step of a path can be: one that stays, one up, or one to an entry. -/
theorem enter_cases {next : Location} {name : Name} (h : tree.enter location name = .ok next) :
    tree.get? location = some .directory ∧
      (next = location ∨ next = location.dropLast ∨
        isReserved name = false ∧ isLongName name = false ∧ next = location ++ [name]) := by
  unfold enter at h
  split at h
  · contradiction
  · rename_i hdirectory
    rw [Bool.not_eq_true', Bool.not_eq_false, isDirectoryAt_iff] at hdirectory
    refine ⟨hdirectory, ?_⟩
    split at h
    · exact .inl (Except.ok.inj h).symm
    · rename_i hidle
      split at h
      · exact .inr (.inl (Except.ok.inj h).symm)
      · rename_i habove
        split at h
        · contradiction
        · rename_i hlong
          split at h
          · contradiction
          · exact .inr (.inr ⟨isReserved_eq_false_iff.mpr ⟨by simpa using hidle, habove⟩,
              by simpa using hlong, (Except.ok.inj h).symm⟩)

/-- A path that leads to a file ends in the name of that file. -/
theorem exists_name_of_resolve {bytes : ByteArray} (hclosed : tree.IsClosed)
    (h : tree.resolve path = .ok location) (hfile : tree.get? location = some (.file bytes)) :
    ∃ front name next, segments path = front ++ [name] ∧ isReserved name = false ∧
      isLongName name = false ∧ tree.walk (tree.origin path) front = .ok next ∧
      tree.get? next = some .directory ∧ location = next ++ [name] := by
  obtain ⟨-, hwalk⟩ := resolve_eq_ok_iff.mp h
  rcases List.eq_nil_or_concat (segments path) with hnil | ⟨front, name, hsegments⟩
  · exact absurd hnil (Text.split_ne_nil _ _)
  · rw [List.concat_eq_append] at hsegments
    rw [hsegments] at hwalk
    obtain ⟨next, hfront, hlast⟩ := exists_walk_of_append hwalk
    obtain ⟨reached, henter, hreached⟩ := exists_enter_of_walk hlast
    obtain rfl : reached = location := Except.ok.inj hreached
    obtain ⟨hnext, hstep⟩ := enter_cases henter
    -- a step that stays or goes up leads to a directory
    rcases hstep with rfl | rfl | ⟨hreserved, hlong, hlocation⟩
    · rw [hnext] at hfile
      simp at hfile
    · rw [hclosed.dropLast hnext] at hfile
      simp at hfile
    · exact ⟨front, name, next, hsegments, hreserved, hlong, hfront, hnext, hlocation⟩

/-! ## 3. Another text for a file -/

theorem writeText_of_resolve {bytes : ByteArray} (hclosed : tree.IsClosed)
    (h : tree.resolve path = .ok location) (hfile : tree.get? location = some (.file bytes))
    (content : String) :
    tree.writeText path content = .ok (tree.put location (.file content.toUTF8)) := by
  obtain ⟨front, name, next, hsegments, hreserved, hlong, hfront, hnext, rfl⟩ :=
    exists_name_of_resolve hclosed h hfile
  have hname : name ≠ [] := by
    rintro rfl
    exact absurd hreserved (by decide)
  have hparent : tree.resolveParent path = .ok (next, name, false) := by
    unfold resolveParent
    rw [(resolve_eq_ok_iff.mp h).1, splitLast_of_concat hsegments hname]
    simp only [hfront, bind, Except.bind, isDirectoryAt_iff.mpr hnext, pure, Except.pure,
      Bool.not_true, if_neg Bool.false_ne_true]
  unfold writeText
  rw [hparent]
  simp only [bind, Except.bind, hreserved, hlong, hfile, Bool.or_self, if_neg Bool.false_ne_true]
  rfl

theorem readText_of_resolve {text : String} (h : tree.resolve path = .ok location)
    (hfile : tree.get? location = some (.file text.toUTF8)) : tree.readText path = .ok text := by
  unfold readText
  simp only [h, bind, Except.bind, hfile, Text.fromUTF8?_toUTF8]
  rfl

theorem exists_file_of_readText {text : String} (h : tree.readText path = .ok text) :
    ∃ location, tree.resolve path = .ok location ∧
      tree.get? location = some (.file text.toUTF8) := by
  unfold readText at h
  cases hresolve : tree.resolve path with
  | error fault =>
    rw [hresolve] at h
    contradiction
  | ok location =>
    simp only [hresolve, bind, Except.bind] at h
    refine ⟨location, rfl, ?_⟩
    split at h
    · contradiction
    · contradiction
    · rename_i bytes hbytes
      split at h
      · rename_i found hfound
        rw [hbytes, Text.toUTF8_of_fromUTF8? hfound, Except.ok.inj h]
      · contradiction

theorem retains_of_writeText {after : FileTree} {content : String}
    (h : tree.writeText path content = .ok after) : tree.Retains after := by
  obtain ⟨hroot, hplace, -, rfl⟩ := writeText_eq_ok h
  exact retains_put hroot hplace _

theorem resolve_of_writeText {after : FileTree} {content : String}
    (h : tree.writeText path content = .ok after) : after.resolve path = .ok (tree.place path) := by
  have hretains := retains_of_writeText h
  obtain ⟨next, name, hparent, hreserved, hlong, -, hafter⟩ := exists_resolveParent_of_writeText h
  obtain ⟨hfault, front, hsplit, hwalk, hnext⟩ := exists_walk_of_resolveParent hparent
  obtain ⟨hidle, habove⟩ := isReserved_eq_false_iff.mp hreserved
  have hfile : after.get? (next ++ [name]) = some (.file content.toUTF8) := by
    rw [hafter, get?_put _ _ _ _ (by simp), if_pos rfl]
  -- the names before the last one lead to where they did, and the last one has an entry now
  have henter : after.enter next name = .ok (next ++ [name]) := by
    simp [enter, isDirectoryAt_iff.mpr (hretains.directories _ hnext), hidle, habove, hlong, hfile]
  rw [(resolveParent_eq_ok hparent hreserved).1, resolve_eq_ok_iff, segments_of_splitLast hsplit,
    hretains.origin_eq]
  refine ⟨hfault, ?_⟩
  rw [walk_append_of_ok (hretains.walk_eq_ok hwalk), walk, henter]
  rfl

/-- A tree whose file of a path has got another text. -/
structure Rewritten (path content : String) (before after : FileTree) : Prop where
  workingDirectory : after.workingDirectory = before.workingDirectory
  entries : ∀ location, after.get? location =
    if location = before.place path then some (.file content.toUTF8) else before.get? location
  readText : after.readText path = .ok content
  isClosed : after.IsClosed

/-- What stood in a file before makes no difference. -/
theorem Rewritten.same {first second : String} {before between after after' : FileTree}
    (h : Rewritten path first before between) (h' : Rewritten path second between after)
    (hdirect : Rewritten path second before after') : Same after after' := by
  refine ⟨by rw [h'.workingDirectory, h.workingDirectory, hdirect.workingDirectory], ?_⟩
  intro location
  rw [h'.entries, hdirect.entries, h.entries, place_congr h.workingDirectory]
  split <;> rfl

theorem Rewritten.refl {text : String} (hclosed : tree.IsClosed)
    (h : tree.readText path = .ok text) : Rewritten path text tree tree := by
  obtain ⟨location, hresolve, hfile⟩ := exists_file_of_readText h
  refine ⟨rfl, fun other => ?_, h, hclosed⟩
  split
  · rename_i hother
    rw [hother, ← eq_place_of_resolve hresolve, hfile]
  · rfl

theorem exists_rewritten {text : String} (hclosed : tree.IsClosed)
    (h : tree.readText path = .ok text) (content : String) :
    ∃ after, tree.writeText path content = .ok after ∧ Rewritten path content tree after := by
  obtain ⟨location, hresolve, hfile⟩ := exists_file_of_readText h
  have hroot := ne_nil_of_file hfile
  have hwrite := writeText_of_resolve hclosed hresolve hfile content
  refine ⟨_, hwrite, rfl, fun other => ?_, ?_, hclosed.writeText hwrite⟩
  · rw [get?_put _ _ _ _ hroot, ← eq_place_of_resolve hresolve]
  · have hplace : tree.get? location ≠ some .directory := by simp [hfile]
    have hretains := retains_put hroot hplace (.file content.toUTF8)
    refine readText_of_resolve (hretains.resolve_eq_ok hresolve) ?_
    rw [get?_put _ _ _ _ hroot, if_pos rfl]

end FileTree

end ModuleSurface
