import ModuleSurface.Output
import ModuleSurface.Proofs.FileTree.Overwrite

/-!
# Rewrite — writing a file that is there

No directories are made for a file that is there (`makeParent_of_resolve`).  If its text can be
read, writing another one succeeds, and writing the same one does nothing (`write_of_readText`).
Whatever is written, a tree in which everything stands in a directory stays one.
-/

namespace ModuleSurface.Output

open FileTree (Rewritten)

variable [FileTree.Limits] {tree : FileTree} {path : String}

/-! ## 1. A file that is there -/

theorem makeParent_of_resolve {location : Location} (h : tree.resolve path = .ok location) :
    makeParent tree path = (.ok (), tree) := by
  unfold makeParent
  cases hparent : Path.parent? path with
  | none => rfl
  | some parent =>
    have hexists : parent = "" ∨ tree.pathExists parent = true := by
      refine (FileTree.exists_resolve_parent h hparent).imp_right ?_
      rintro ⟨next, hnext⟩
      rw [FileTree.pathExists, hnext]
      rfl
    dsimp only
    rw [if_pos hexists]

theorem holds_of_readText {text : String} (h : tree.readText path = .ok text) (content : String) :
    holds tree path content = (text == content) := by
  rw [holds, h]

theorem write_of_same {content : String} (h : tree.readText path = .ok content) :
    (write false tree path content).value = (.ok (.unchanged path), tree) := by
  rw [write, if_neg Bool.false_ne_true, holds_of_readText h, if_pos (beq_self_eq_true content)]
  rfl

/-- A file whose text can be read gets the text that it is given.  It is written exactly if that is
another one. -/
theorem write_of_readText {text : String} (hclosed : tree.IsClosed)
    (h : tree.readText path = .ok text) (content : String) :
    ∃ after, (write false tree path content).value =
        (.ok (if text = content then .unchanged path else .written path content.utf8ByteSize),
          after) ∧
      Rewritten path content tree after := by
  by_cases hsame : text = content
  · rw [hsame] at h
    rw [write_of_same h, if_pos hsame]
    exact ⟨tree, rfl, .refl hclosed h⟩
  · obtain ⟨location, hresolve, -⟩ := FileTree.exists_file_of_readText h
    obtain ⟨after, hwrite, hrewritten⟩ := FileTree.exists_rewritten hclosed h content
    have hholds : ¬holds tree path content = true := by
      rw [holds_of_readText h, beq_iff_eq]
      exact hsame
    rw [write, if_neg Bool.false_ne_true, if_neg hholds, if_neg hsame, replace,
      makeParent_of_resolve hresolve]
    dsimp only
    rw [hwrite]
    exact ⟨after, rfl, hrewritten⟩

/-! ## 2. Trees in which everything stands in a directory -/

theorem isClosed_makeParent (h : tree.IsClosed) (path : String) :
    (makeParent tree path).2.IsClosed := by
  unfold makeParent
  split
  · exact h
  · rename_i parent hparent
    have hmade : (tree.makeDirectories parent).2.IsClosed := h.makeEach _
    split
    · exact h
    · split <;> rename_i heq <;> rwa [heq] at hmade

theorem isClosed_write (h : tree.IsClosed) {dryRun : Bool} {path content : String}
    {result : Except WriteFault WriteResult} {after : FileTree}
    (hwrite : (write dryRun tree path content).value = (result, after)) : after.IsClosed := by
  have hmade := isClosed_makeParent h path
  unfold write at hwrite
  split at hwrite
  · exact (Prod.mk.inj hwrite).2 ▸ h
  · split at hwrite
    · exact (Prod.mk.inj hwrite).2 ▸ h
    · unfold replace at hwrite
      split at hwrite <;> rename_i heq <;> rw [heq] at hmade
      · exact (Prod.mk.inj hwrite).2 ▸ hmade
      · split at hwrite
        · exact (Prod.mk.inj hwrite).2 ▸ hmade
        · rename_i hwritten
          exact (Prod.mk.inj hwrite).2 ▸ hmade.writeText hwritten

theorem isClosed_writeEmitted (h : tree.IsClosed) {dryRun : Bool} {directory : String}
    {file : EmittedFile} {result : Except WriteFault WriteResult} {after : FileTree}
    (hwrite : (writeEmitted dryRun tree directory file).value = (result, after)) :
    after.IsClosed := by
  unfold writeEmitted at hwrite
  split at hwrite
  · exact isClosed_write h hwrite
  · exact (Prod.mk.inj hwrite).2 ▸ h

end ModuleSurface.Output
