import Mathlib.Data.List.Flatten
import ModuleSurface.Json.Runs

/-!
# Runs — the runs of a document make up its text

Between two escapes nothing is handed on until the next one, so what has been passed stands before
the rest of the string (`flatten_contentRuns`).  All runs together are the text that is written for
the document as a whole (`flatten_runs`).
-/

namespace ModuleSurface.Json

theorem flatten_flush (passed : List Char) : (flush passed).flatten = passed.reverse := by
  unfold flush
  cases passed with
  | nil => rfl
  | cons c passed => simp

theorem flatten_contentRuns (passed content : List Char) :
    (contentRuns passed content).flatten = passed.reverse ++ content.flatMap literalChar := by
  induction content generalizing passed with
  | nil => rw [contentRuns, flatten_flush, List.flatMap_nil, List.append_nil]
  | cons c content ih =>
    rw [contentRuns, List.flatMap_cons]
    by_cases hplain : literalChar c = [c]
    · -- the character joins the stretch, to be handed on at the next escape
      rw [if_pos hplain, ih, hplain, List.reverse_cons, List.append_assoc]
    · rw [if_neg hplain, List.flatten_append, flatten_flush, List.flatten_cons, ih]
      rfl

theorem flatten_literalRuns (content : List Char) :
    (literalRuns content).flatten = literal content := by
  rw [literalRuns, List.cons_append, List.flatten_cons, List.flatten_append, flatten_contentRuns]
  rfl

section Breaks

variable (layout : Layout) (depth : Nat)

theorem flatten_breakRuns_first :
    (layout.breakRuns true depth).flatten = layout.lineBreak depth := by
  cases layout with
  | compact => rfl
  | pretty =>
    show '\n' :: (List.replicate depth (List.replicate 2 ' ')).flatten = _
    rw [List.flatten_replicate_replicate, Nat.mul_comm]
    rfl

theorem flatten_breakRuns_next :
    (layout.breakRuns false depth).flatten = ',' :: layout.lineBreak depth := by
  rw [← flatten_breakRuns_first]
  cases layout <;> rfl

end Breaks

-- One case for each of the writer's, so that the two go down the document in step.
mutual

theorem flatten_runs (layout : Layout) (depth : Nat) :
    ∀ document : Json, (document.runs layout depth).flatten = document.write layout depth
  | .null => by simp [runs, write]
  | .boolean true => by simp [runs, write]
  | .boolean false => by simp [runs, write]
  | .numeral digits => by simp [runs, write]
  | .string content => by rw [runs, write, flatten_literalRuns]
  | .array [] => by simp [runs, write]
  | .array (item :: items) => by
    simp [runs, write, flatten_breakRuns_first, flatten_runs layout (depth + 1) item,
      flatten_runsOfItems layout (depth + 1) items]
  | .object [] => by simp [runs, write]
  | .object ((key, value) :: members) => by
    simp [runs, write, flatten_breakRuns_first, flatten_literalRuns,
      flatten_runs layout (depth + 1) value, flatten_runsOfMembers layout (depth + 1) members]

theorem flatten_runsOfItems (layout : Layout) (depth : Nat) :
    ∀ items : List Json, (runsOfItems layout depth items).flatten = writeItems layout depth items
  | [] => by simp [runsOfItems, writeItems]
  | item :: items => by
    simp [runsOfItems, writeItems, flatten_breakRuns_next, flatten_runs layout depth item,
      flatten_runsOfItems layout depth items]

theorem flatten_runsOfMembers (layout : Layout) (depth : Nat) :
    ∀ members : List (List Char × Json),
      (runsOfMembers layout depth members).flatten = writeMembers layout depth members
  | [] => by simp [runsOfMembers, writeMembers]
  | (key, value) :: members => by
    simp [runsOfMembers, writeMembers, flatten_breakRuns_next, flatten_literalRuns,
      flatten_runs layout depth value, flatten_runsOfMembers layout depth members]

end

end ModuleSurface.Json
