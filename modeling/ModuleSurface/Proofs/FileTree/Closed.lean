import ModuleSurface.Proofs.FileTree.Frame

/-!
# Closed — trees in which everything stands in a directory

No entry is made but in a directory, and no directory becomes a file, so that what is made in a
closed tree leaves it closed (`IsClosed.makeEach`, `IsClosed.writeText`).
-/

namespace ModuleSurface.FileTree

open ModuleSurface.Path (Name)

/-- Whether everything in a tree stands in a directory. -/
def IsClosed (tree : FileTree) : Prop :=
  ∀ location name, tree.get? (location ++ [name]) ≠ none → tree.get? location = some .directory

variable {tree after : FileTree} {location : Location}

/-- A tree with one file in its root, which is also the working directory. -/
def ofFile (name text : String) : FileTree :=
  ⟨[([name.toList], .file text.toUTF8)], []⟩

theorem isClosed_ofFile (name text : String) : (ofFile name text).IsClosed := by
  intro location last hentry
  cases location with
  | nil => rfl
  | cons first more => exact absurd (by simp [ofFile, get?, findEntry]) hentry

theorem IsClosed.dropLast (h : tree.IsClosed) {entry : Entry}
    (hentry : tree.get? location = some entry) :
    tree.get? location.dropLast = some .directory := by
  rcases List.eq_nil_or_concat location with rfl | ⟨upper, name, rfl⟩
  · rfl
  · rw [List.concat_eq_append] at hentry ⊢
    rw [List.dropLast_concat]
    exact h upper name (by rw [hentry]; simp)

/-- An entry in a directory, which takes the place of no other directory. -/
theorem IsClosed.put (h : tree.IsClosed) (hroot : location ≠ [])
    (hupper : tree.get? location.dropLast = some .directory)
    (hplace : tree.get? location ≠ some .directory) (entry : Entry) :
    (tree.put location entry).IsClosed := by
  intro other name hentry
  rw [get?_put _ _ _ _ hroot] at hentry ⊢
  -- the new entry stands in a directory, and the others did so before
  have hbefore : tree.get? other = some .directory := by
    split at hentry
    · rename_i hlocation
      rwa [← hlocation, List.dropLast_concat] at hupper
    · exact h other name hentry
  rw [if_neg, hbefore]
  rintro rfl
  exact hplace hbefore

variable [Limits] {path content : String}

theorem IsClosed.makeDirectory (h : tree.IsClosed) (hmake : tree.makeDirectory path = .ok after) :
    after.IsClosed := by
  obtain ⟨hroot, hnone, hupper, rfl⟩ := makeDirectory_eq_ok hmake
  exact h.put hroot hupper (by simp [hnone]) _

theorem IsClosed.writeText (h : tree.IsClosed) (hwrite : tree.writeText path content = .ok after) :
    after.IsClosed := by
  obtain ⟨hroot, hplace, hupper, rfl⟩ := writeText_eq_ok hwrite
  exact h.put hroot hupper hplace _

theorem IsClosed.makeEach (h : tree.IsClosed) (paths : List String) :
    (tree.makeEach paths).2.IsClosed := by
  -- directories that were made stay when a later one cannot be made, so both results count
  induction paths with
  | nil => exact h
  | cons path above ih =>
    rw [FileTree.makeEach]
    split
    · rename_i hmake
      exact h.makeDirectory hmake
    · split <;> rename_i hmade <;> rw [hmade] at ih
      · exact ih
      · split
        · rename_i hmake
          exact ih.makeDirectory hmake
        · split <;> exact ih
    · split <;> exact h

end ModuleSurface.FileTree
