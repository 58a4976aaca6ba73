import ModuleSurface.FileTree.Basic
import ModuleSurface.Proofs.FileTree.Path

/-!
# Frame — what making directories and writing files leaves alone

Where a path leads in a tree without links is known from its segments (`walk_eq_ok`), so that a
new entry stands where its path leads (`makeDirectory_eq_ok`, `writeText_eq_ok`).  Making
directories adds directories where the given paths lead and changes nothing else
(`grows_makeEach`).
-/

namespace ModuleSurface.FileTree

open ModuleSurface.Path (Name follow isIdle above segments)

/-! ## 1. Trees with new directories -/

/-- The location that a path leads to, if it leads to anything. -/
def place (tree : FileTree) (path : String) : Location :=
  follow (tree.origin path) (segments path)

def Same (left right : FileTree) : Prop :=
  left.workingDirectory = right.workingDirectory ∧
    ∀ location, left.get? location = right.get? location

/-- A tree that has got nothing but new directories, at locations where they may stand. -/
structure Grows (MayStand : Location → Prop) (before after : FileTree) : Prop where
  workingDirectory : after.workingDirectory = before.workingDirectory
  entries : ∀ location, after.get? location = before.get? location ∨
    before.get? location = none ∧ after.get? location = some .directory ∧ MayStand location

theorem Grows.refl {MayStand : Location → Prop} (tree : FileTree) : Grows MayStand tree tree :=
  ⟨rfl, fun _ => .inl rfl⟩

theorem Grows.trans {MayStand : Location → Prop} {first second third : FileTree}
    (h : Grows MayStand first second) (h' : Grows MayStand second third) :
    Grows MayStand first third := by
  refine ⟨h'.workingDirectory.trans h.workingDirectory, fun location => ?_⟩
  rcases h'.entries location with hsame | ⟨hnone, hnew, hmay⟩
  · rw [hsame]
    exact h.entries location
  · rcases h.entries location with hsame | ⟨-, hold, -⟩
    · exact .inr ⟨hsame ▸ hnone, hnew, hmay⟩
    · rw [hold] at hnone
      contradiction

theorem place_congr {before after : FileTree}
    (h : after.workingDirectory = before.workingDirectory) (path : String) :
    after.place path = before.place path := by
  rw [place, place, origin, origin, h]

theorem Grows.place_eq {MayStand : Location → Prop} {before after : FileTree}
    (h : Grows MayStand before after) (path : String) : after.place path = before.place path :=
  place_congr h.workingDirectory path

/-- There are the same files, with the same in them. -/
theorem Grows.get?_eq_file_iff {MayStand : Location → Prop} {before after : FileTree}
    (h : Grows MayStand before after) (location : Location) (bytes : ByteArray) :
    after.get? location = some (.file bytes) ↔ before.get? location = some (.file bytes) := by
  rcases h.entries location with hsame | ⟨hnone, hnew, -⟩
  · rw [hsame]
  · simp [hnone, hnew]

theorem grows_put {MayStand : Location → Prop} {tree : FileTree} {location : Location}
    (hroot : location ≠ []) (hnone : tree.get? location = none) (hmay : MayStand location) :
    Grows MayStand tree (tree.put location .directory) := by
  refine ⟨rfl, fun other => ?_⟩
  rw [get?_put _ _ _ _ hroot]
  by_cases hother : other = location
  · rw [if_pos hother, hother]
    exact .inr ⟨hnone, rfl, hmay⟩
  · rw [if_neg hother]
    exact .inl rfl

/-! ## 2. Where paths lead -/

theorem mem_takeWhile_isEmpty {names : List Name} :
    ∀ name ∈ (names.takeWhile List.isEmpty).reverse, name = [] := by
  intro name hname
  exact List.isEmpty_iff.mp (List.mem_takeWhile_imp (List.mem_reverse.mp hname))

theorem exists_splitLast {path : String} {before : List Name} {last : Name} {slashed : Bool}
    (h : splitLast path = (before, last, slashed)) (hlast : last ≠ []) :
    ∃ tail, segments path = before ++ last :: tail ∧ ∀ name ∈ tail, name = [] := by
  have hreverse :=
    List.takeWhile_append_dropWhile (p := List.isEmpty) (l := (segments path).reverse)
  unfold splitLast at h
  dsimp only at h
  split at h
  · exact absurd (Prod.mk.inj (Prod.mk.inj h).2).1.symm hlast
  · rename_i name names hdrop
    obtain ⟨rfl, hmore⟩ := Prod.mk.inj h
    obtain ⟨rfl, -⟩ := Prod.mk.inj hmore
    rw [hdrop] at hreverse
    refine ⟨((segments path).reverse.takeWhile List.isEmpty).reverse, ?_, mem_takeWhile_isEmpty⟩
    calc segments path = (segments path).reverse.reverse := (List.reverse_reverse _).symm
      _ = ((segments path).reverse.takeWhile List.isEmpty ++ name :: names).reverse := by
        rw [hreverse]
      _ = _ := by rw [List.reverse_append, List.reverse_cons, List.append_assoc]; rfl

theorem splitLast_of_concat {path : String} {last : Name} {front : List Name}
    (h : segments path = front ++ [last]) (hlast : last ≠ []) :
    splitLast path = (front, last, false) := by
  cases last with
  | nil => contradiction
  | cons c more => simp [splitLast, h]

theorem segments_of_splitLast {path : String} {front : List Name} {last : Name}
    (h : splitLast path = (front, last, false)) : segments path = front ++ [last] := by
  rcases List.eq_nil_or_concat (segments path) with hnil | ⟨names, name, hsegments⟩
  · exact absurd hnil (Text.split_ne_nil _ _)
  · rw [List.concat_eq_append] at hsegments
    cases name with
    | nil =>
      -- an empty segment at the end is what slashes leave
      unfold splitLast at h
      rw [hsegments, List.reverse_append, List.reverse_singleton, List.singleton_append] at h
      dsimp only at h
      split at h <;> exact absurd (Prod.mk.inj (Prod.mk.inj h).2).2 (by simp)
    | cons c more =>
      rw [splitLast_of_concat hsegments (List.cons_ne_nil c more)] at h
      obtain ⟨rfl, hmore⟩ := Prod.mk.inj h
      rw [hsegments, (Prod.mk.inj hmore).1]

theorem isReserved_eq_false_iff {name : Name} :
    isReserved name = false ↔ isIdle name = false ∧ name ≠ above := by
  simp [isReserved]

variable [Limits]

theorem enter_eq_ok {tree : FileTree} {location next : Location} {name : Name}
    (h : tree.enter location name = .ok next) : next = follow location [name] := by
  unfold enter at h
  split at h
  · contradiction
  · simp only [follow]
    split at h
    · rename_i hidle
      rw [if_pos hidle, Except.ok.inj h]
    · rename_i hidle
      rw [if_neg hidle]
      split at h
      · rename_i habove
        rw [if_pos habove, Except.ok.inj h]
      · rename_i habove
        rw [if_neg habove]
        split at h
        · contradiction
        · split at h
          · contradiction
          · exact (Except.ok.inj h).symm

theorem exists_enter_of_walk {tree : FileTree} {location last : Location} {name : Name}
    {names : List Name} (h : tree.walk location (name :: names) = .ok last) :
    ∃ next, tree.enter location name = .ok next ∧ tree.walk next names = .ok last := by
  rw [walk] at h
  cases henter : tree.enter location name with
  | error fault =>
    rw [henter] at h
    contradiction
  | ok next =>
    rw [henter] at h
    exact ⟨next, rfl, h⟩

/-- Following segments leads to where they lead by themselves. -/
theorem walk_eq_ok {tree : FileTree} {location last : Location} {names : List Name}
    (h : tree.walk location names = .ok last) : last = follow location names := by
  induction names generalizing location with
  | nil => exact (Except.ok.inj h).symm
  | cons name names ih =>
    obtain ⟨next, henter, hmore⟩ := exists_enter_of_walk h
    rw [ih hmore, enter_eq_ok henter]
    rfl

/-- The names before the last one lead to the directory that a new entry would stand in. -/
theorem exists_walk_of_resolveParent {tree : FileTree} {path : String} {location : Location}
    {name : Name} {slashed : Bool} (h : tree.resolveParent path = .ok (location, name, slashed)) :
    pathFault? path = none ∧ ∃ front, splitLast path = (front, name, slashed) ∧
      tree.walk (tree.origin path) front = .ok location ∧ tree.get? location = some .directory := by
  unfold resolveParent at h
  split at h
  · contradiction
  · rename_i hfault
    generalize hsplit : splitLast path = parts at h
    obtain ⟨front, last, trailing⟩ := parts
    simp only [bind, Except.bind] at h
    split at h
    · contradiction
    · rename_i reached hwalk
      split at h
      · contradiction
      · rename_i hdirectory
        rw [Bool.not_eq_true', Bool.not_eq_false] at hdirectory
        obtain ⟨rfl, hmore⟩ := Prod.mk.inj (Except.ok.inj h)
        obtain ⟨rfl, rfl⟩ := Prod.mk.inj hmore
        exact ⟨hfault, front, rfl, hwalk, beq_iff_eq.mp hdirectory⟩

/-- A new entry stands where its path leads, in a directory. -/
theorem resolveParent_eq_ok {tree : FileTree} {path : String} {location : Location} {name : Name}
    {slashed : Bool} (h : tree.resolveParent path = .ok (location, name, slashed))
    (hreserved : isReserved name = false) :
    tree.place path = location ++ [name] ∧ tree.get? location = some .directory := by
  obtain ⟨hidle, habove⟩ := isReserved_eq_false_iff.mp hreserved
  obtain ⟨-, front, hsplit, hwalk, hdirectory⟩ := exists_walk_of_resolveParent h
  have hlast : name ≠ [] := by
    rintro rfl
    contradiction
  obtain ⟨tail, hsegments, htail⟩ := exists_splitLast hsplit hlast
  have htailIdle : ∀ other ∈ tail, isIdle other = true := fun other hother => by
    rw [htail other hother]
    rfl
  refine ⟨?_, hdirectory⟩
  rw [place, hsegments, Path.follow_append, ← walk_eq_ok hwalk, follow, hidle,
    if_neg Bool.false_ne_true, if_neg habove, Path.follow_of_idle htailIdle]

theorem makeDirectory_eq_ok {tree after : FileTree} {path : String}
    (h : tree.makeDirectory path = .ok after) :
    tree.place path ≠ [] ∧ tree.get? (tree.place path) = none ∧
      tree.get? (tree.place path).dropLast = some .directory ∧
      after = tree.put (tree.place path) .directory := by
  unfold makeDirectory at h
  simp only [bind, Except.bind] at h
  split at h
  · contradiction
  · rename_i parts hparent
    obtain ⟨location, name, slashed⟩ := parts
    dsimp only at h
    split at h
    · contradiction
    · rename_i hreserved
      obtain ⟨hplace, hdirectory⟩ := resolveParent_eq_ok hparent (Bool.eq_false_iff.mpr hreserved)
      rw [hplace, List.dropLast_concat]
      split at h
      · contradiction
      · split at h
        · contradiction
        · rename_i hnone
          exact ⟨by simp, hnone, hdirectory, (Except.ok.inj h).symm⟩

/-- A file is written in the directory of its path, under a name that it can have. -/
theorem exists_resolveParent_of_writeText {tree after : FileTree} {path content : String}
    (h : tree.writeText path content = .ok after) :
    ∃ location name, tree.resolveParent path = .ok (location, name, false) ∧
      isReserved name = false ∧ isLongName name = false ∧
      tree.get? (location ++ [name]) ≠ some .directory ∧
      after = tree.put (location ++ [name]) (.file content.toUTF8) := by
  unfold writeText at h
  simp only [bind, Except.bind] at h
  split at h
  · contradiction
  · rename_i parts hparent
    obtain ⟨location, name, slashed⟩ := parts
    dsimp only at h
    split at h
    · contradiction
    · -- no slashes follow the name, and it is one that an entry can have
      rename_i hreserved
      rw [Bool.or_eq_true, not_or, Bool.not_eq_true, Bool.not_eq_true] at hreserved
      obtain ⟨rfl, hreserved⟩ := hreserved
      split at h
      · contradiction
      · rename_i hlong
        split at h
        · contradiction
        · rename_i hdirectory
          exact ⟨location, name, hparent, hreserved, by simpa using hlong, hdirectory,
            (Except.ok.inj h).symm⟩

/-- A file is written where its path leads, in a directory, if no directory stands there. -/
theorem writeText_eq_ok {tree after : FileTree} {path content : String}
    (h : tree.writeText path content = .ok after) :
    tree.place path ≠ [] ∧ tree.get? (tree.place path) ≠ some .directory ∧
      tree.get? (tree.place path).dropLast = some .directory ∧
      after = tree.put (tree.place path) (.file content.toUTF8) := by
  obtain ⟨location, name, hparent, hreserved, -, hdirectory, hafter⟩ :=
    exists_resolveParent_of_writeText h
  obtain ⟨hplace, hupper⟩ := resolveParent_eq_ok hparent hreserved
  rw [hplace, List.dropLast_concat]
  exact ⟨by simp, hdirectory, hupper, hafter⟩

/-! ## 3. Making directories -/

theorem grows_makeDirectory {MayStand : Location → Prop} {tree after : FileTree} {path : String}
    (hmay : MayStand (tree.place path)) (h : tree.makeDirectory path = .ok after) :
    Grows MayStand tree after := by
  obtain ⟨hroot, hnone, -, rfl⟩ := makeDirectory_eq_ok h
  exact grows_put hroot hnone hmay

/-- Making directories adds directories where their paths lead. -/
theorem grows_makeEach {MayStand : Location → Prop} {paths : List String} {tree : FileTree}
    (h : ∀ path ∈ paths, MayStand (tree.place path)) :
    Grows MayStand tree (tree.makeEach paths).2 := by
  induction paths with
  | nil => exact .refl tree
  | cons path above ih =>
    obtain ⟨hpath, habove⟩ := List.forall_mem_cons.mp h
    rw [makeEach]
    split
    · -- made at the first attempt
      rename_i after hmake
      exact grows_makeDirectory hpath hmake
    · -- its parent is missing: those above are made, and then it is tried again
      have hgrows := ih habove
      split
      · rename_i hmade
        rwa [hmade] at hgrows
      · rename_i after hmade
        rw [hmade] at hgrows
        split
        · rename_i last hmake
          refine hgrows.trans (grows_makeDirectory ?_ hmake)
          rw [hgrows.place_eq]
          exact hpath
        · split <;> exact hgrows
    · split <;> exact .refl tree

end ModuleSurface.FileTree
