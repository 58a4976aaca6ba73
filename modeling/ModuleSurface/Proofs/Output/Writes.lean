import ModuleSurface.Proofs.Output.Contained
import ModuleSurface.Proofs.Output.Rewrite

/-!
# Writes — what writing texts to files comes to, once and in a row

Writing a text to a file has one of four ends (`Outcome`, `write_outcome`).  None of them takes a
file or a directory away, so a path that was written leads to its file from then on, and after any
number of writes a file holds the text that was written to it last (`Settled`, `Settled.writeEach`).
-/

namespace ModuleSurface

open ModuleSurface.Path (above segments)

/-! ## 1. Files and their texts -/

namespace FileTree

def file? (tree : FileTree) (location : Location) : Option ByteArray :=
  match tree.get? location with
  | some (.file bytes) => some bytes
  | _ => none

/-- Whether a path leads to a file that holds just the bytes of a text. -/
def HasText [Limits] (tree : FileTree) (path text : String) : Prop :=
  ∃ location, tree.resolve path = .ok location ∧ tree.get? location = some (.file text.toUTF8)

/-- Whether a location is the one of a directory above a path.  The directories are told by the text
of the path, as they are made: one for each shorter path, followed as it stands.  Where the path
goes up, some of them are not above the place of its file, so this is more than the directories on
the way to the file (`IsAncestor.initial`, and `OnTheWay` for what is told by place). -/
def IsAncestor (tree : FileTree) (path : String) (location : Location) : Prop :=
  ∃ upper, Path.Above upper path ∧ location = tree.place upper

variable {tree before after : FileTree} {path text : String} {location : Location}

theorem file?_eq_some_iff {bytes : ByteArray} :
    tree.file? location = some bytes ↔ tree.get? location = some (.file bytes) := by
  unfold file?
  split <;> simp_all

theorem file?_congr (h : after.get? location = before.get? location) :
    after.file? location = before.file? location := by
  rw [file?, file?, h]

theorem Grows.file?_eq {MayStand : Location → Prop} (h : Grows MayStand before after)
    (location : Location) : after.file? location = before.file? location := by
  refine Option.ext fun bytes => ?_
  rw [file?_eq_some_iff, file?_eq_some_iff]
  exact h.get?_eq_file_iff location bytes

/-- The directories above a path that does not go up are on the way to its place. -/
theorem IsAncestor.initial (h : tree.IsAncestor path location) (hup : above ∉ segments path) :
    location <+: tree.place path := by
  obtain ⟨upper, habove, rfl⟩ := h
  obtain ⟨rest, hrest, -⟩ := habove.exists_rest
  rw [hrest, List.mem_append, not_or] at hup
  rw [place, place, hrest, Path.follow_append, Path.follow_of_not_mem hup.2, origin, origin,
    habove.isAbsolute_eq]
  exact List.prefix_append _ _

variable [Limits]

theorem readText_eq_ok_iff : tree.readText path = .ok text ↔ tree.HasText path text :=
  ⟨exists_file_of_readText, fun ⟨_, hresolve, hfile⟩ => readText_of_resolve hresolve hfile⟩

theorem HasText.place (h : tree.HasText path text) :
    tree.resolve path = .ok (tree.place path) ∧
      tree.get? (tree.place path) = some (.file text.toUTF8) := by
  obtain ⟨location, hresolve, hfile⟩ := h
  rw [← eq_place_of_resolve hresolve]
  exact ⟨hresolve, hfile⟩

end FileTree

open FileTree (Grows Retains)

/-! ## 2. Successful writings -/

namespace Output

/-- A text that is to be written to the file of a path, or would be. -/
structure Writing where
  dryRun : Bool
  path : String
  content : String

/-- Whether a result says that the file has its text now. -/
def succeeds : Except WriteFault WriteResult → Bool
  | .ok (.written ..) | .ok (.unchanged _) => true
  | _ => false

def succeeded (writings : List Writing) (results : List (Except WriteFault WriteResult)) :
    List Writing :=
  ((writings.zip results).filter fun (_, result) => succeeds result).map Prod.fst

def lastTo? (tree : FileTree) (location : Location) (writings : List Writing) :
    Option Writing :=
  writings.reverse.find? fun writing => tree.place writing.path = location

theorem succeeded_cons (writing : Writing) (writings : List Writing)
    (result : Except WriteFault WriteResult) (results : List (Except WriteFault WriteResult)) :
    succeeded (writing :: writings) (result :: results) =
      (if succeeds result = true then [writing] else []) ++ succeeded writings results := by
  by_cases hsucceeds : succeeds result = true
  · simp [succeeded, hsucceeds]
  · simp [succeeded, hsucceeds]

theorem lastTo?_concat (tree : FileTree) (location : Location) (done : List Writing)
    (writing : Writing) :
    lastTo? tree location (done ++ [writing]) =
      if tree.place writing.path = location then some writing else lastTo? tree location done := by
  rw [lastTo?, List.reverse_append, List.reverse_singleton, List.singleton_append, List.find?_cons]
  by_cases hplace : tree.place writing.path = location
  · simp [hplace]
  · simp [hplace, lastTo?]

theorem exists_lastTo? (tree : FileTree) {done : List Writing} {writing : Writing}
    (h : writing ∈ done) :
    ∃ last, lastTo? tree (tree.place writing.path) done = some last := by
  refine Option.isSome_iff_exists.mp (List.find?_isSome.mpr ?_)
  exact ⟨writing, List.mem_reverse.mpr h, decide_eq_true rfl⟩

/-! ## 3. Writing once -/

/-- A tree in which the file of a path has got a text.  What stood anywhere else is still there, and
what is new is a directory above the path; unless the path goes up, it is on the way to the file. -/
structure Wrote [FileTree.Limits] (path content : String) (before after : FileTree) : Prop where
  retains : Retains before after
  hasText : after.HasText path content
  others : ∀ location, location ≠ before.place path →
    after.get? location = before.get? location ∨
      before.get? location = none ∧ after.get? location = some .directory ∧
        before.IsAncestor path location
  onTheWay : above ∉ segments path → ∀ location,
    before.get? location = none → after.get? location ≠ none → location <+: before.place path

/-- What writing a text to a file can come to, in a dry run or not: the result and the tree.  A dry
run and a file that has its text already leave everything as it was.  Otherwise the text is written,
or that is refused, and then no more than directories above the path are new. -/
inductive Outcome [FileTree.Limits] (path content : String) (before : FileTree) :
    Bool → Except WriteFault WriteResult × FileTree → Prop
  | dryRun : Outcome path content before true (.ok (.dryRun path content), before)
  | unchanged (hsame : before.HasText path content) :
      Outcome path content before false (.ok (.unchanged path), before)
  | written {after : FileTree} (hother : ¬before.HasText path content)
      (hwrote : Wrote path content before after) :
      Outcome path content before false (.ok (.written path content.utf8ByteSize), after)
  | failed {fault : WriteFault} {after : FileTree} (hother : ¬before.HasText path content)
      (hrefused : Refused path content before fault after)
      (hgrows : Grows (before.IsAncestor path) before after) :
      Outcome path content before false (.error fault, after)

section Limited

variable [FileTree.Limits] {tree before between after : FileTree} {path content : String}
  {dryRun : Bool} {outcome : Except WriteFault WriteResult × FileTree}

theorem holds_eq_true_iff : holds tree path content = true ↔ tree.HasText path content := by
  rw [← FileTree.readText_eq_ok_iff, holds]
  split <;> simp_all

theorem wrote_of_writeText (h : Grows (before.IsAncestor path) before between)
    (hwrite : between.writeText path content = .ok after) : Wrote path content before after := by
  have hretains := h.keeps.retains.trans (FileTree.retains_of_writeText hwrite)
  have hresolve := FileTree.resolve_of_writeText hwrite
  obtain ⟨hroot, -, -, rfl⟩ := FileTree.writeText_eq_ok hwrite
  rw [h.place_eq] at hroot hresolve hretains ⊢
  have hput := fun other => FileTree.get?_put between (before.place path) other
    (.file content.toUTF8) hroot
  refine ⟨hretains, ⟨_, hresolve, ?_⟩, fun location hlocation => ?_,
    fun hup location hnone hnew => ?_⟩
  · rw [hput, if_pos rfl]
  · rw [hput, if_neg hlocation]
    exact h.entries location
  · -- what is new is the file itself or one of the directories that were made for it
    rw [hput] at hnew
    split at hnew
    · rename_i hlocation
      exact hlocation ▸ List.prefix_refl _
    · rcases h.entries location with hsame | ⟨-, -, hancestor⟩
      · exact absurd (hsame.trans hnone) hnew
      · exact hancestor.initial hup

theorem write_outcome (dryRun : Bool) (tree : FileTree) (path content : String) :
    Outcome path content tree dryRun (write dryRun tree path content).value := by
  cases dryRun with
  | true => exact .dryRun
  | false =>
    rw [write, if_neg Bool.false_ne_true]
    by_cases hholds : holds tree path content = true
    · rw [if_pos hholds]
      exact .unchanged (holds_eq_true_iff.mp hholds)
    · rw [if_neg hholds]
      have hother : ¬tree.HasText path content := fun h => hholds (holds_eq_true_iff.mpr h)
      have hmade : Grows (tree.IsAncestor path) tree (makeParent tree path).2 :=
        grows_makeParent fun upper hupper => ⟨upper, hupper, rfl⟩
      obtain ⟨between, hgrows, ⟨fault, hfails⟩ | ⟨after, hwrite, hdone⟩⟩ :=
        exists_grows_replace hmade content
      · have hrefused := refused_of_replace hfails
        rw [hfails]
        exact .failed hother hrefused hgrows
      · rw [hdone]
        exact .written hother (wrote_of_writeText hgrows hwrite)

/-- No end takes anything away. -/
theorem Outcome.retains (h : Outcome path content before dryRun outcome) :
    Retains before outcome.2 := by
  cases h with
  | dryRun => exact .refl before
  | unchanged hsame => exact .refl before
  | written hother hwrote => exact hwrote.retains
  | failed hother hrefused hgrows => exact hgrows.keeps.retains

theorem Outcome.hasText (h : Outcome path content before dryRun outcome)
    (hsucceeds : succeeds outcome.1 = true) : outcome.2.HasText path content := by
  cases h with
  | dryRun => contradiction
  | unchanged hsame => exact hsame
  | written hother hwrote => exact hwrote.hasText
  | failed hother hrefused hgrows => contradiction

theorem Outcome.unchanged_iff (h : Outcome path content before false outcome) :
    outcome.1 = .ok (.unchanged path) ↔ before.HasText path content := by
  cases h with
  | unchanged hsame => simp [hsame]
  | written hother hwrote => simp [hother]
  | failed hother hrefused hgrows => simp [hother]

/-- A writing that succeeds gives the file of its path its text.  No other file changes. -/
theorem Outcome.file?_eq (h : Outcome path content before dryRun outcome)
    (location : Location) :
    outcome.2.file? location =
      if succeeds outcome.1 = true ∧ location = before.place path then some content.toUTF8
      else before.file? location := by
  by_cases hplace : succeeds outcome.1 = true ∧ location = before.place path
  · obtain ⟨hsucceeds, rfl⟩ := hplace
    rw [if_pos ⟨hsucceeds, rfl⟩, FileTree.file?_eq_some_iff,
      ← FileTree.place_congr h.retains.workingDirectory]
    exact (h.hasText hsucceeds).place.2
  · rw [if_neg hplace]
    cases h with
    | dryRun => rfl
    | unchanged hsame => rfl
    | written hother hwrote =>
      rcases hwrote.others location fun hlocation => hplace ⟨rfl, hlocation⟩ with
        hsame | ⟨hnone, hnew, -⟩
      · exact FileTree.file?_congr hsame
      · rw [FileTree.file?, FileTree.file?, hnone, hnew]
    | failed hother hrefused hgrows => exact hgrows.file?_eq location

/-! ## 4. Writing in a row -/

def writeEach (tree : FileTree) :
    List Writing → Logged (List (Except WriteFault WriteResult) × FileTree)
  | [] => pure ([], tree)
  | writing :: writings => do
      let (result, tree) ← write writing.dryRun tree writing.path writing.content
      let (results, tree) ← writeEach tree writings
      return (result :: results, tree)

/-- A tree after some successful writings.  The path of each leads to its file, and every file has
the text of the last writing to it, or is as it was if there is none. -/
structure Settled (before : FileTree) (done : List Writing) (after : FileTree) : Prop where
  workingDirectory : after.workingDirectory = before.workingDirectory
  leads : ∀ writing ∈ done, after.resolve writing.path = .ok (before.place writing.path)
  files : ∀ location, after.file? location =
    ((lastTo? before location done).map (·.content.toUTF8)).or (before.file? location)

variable {done : List Writing} {writing : Writing}

theorem settled_nil (tree : FileTree) : Settled tree [] tree :=
  ⟨rfl, by simp, fun _ => rfl⟩

/-- What one more writing comes to, whatever its end. -/
theorem Settled.concat (h : Settled before done tree)
    (houtcome : Outcome writing.path writing.content tree writing.dryRun outcome) :
    Settled before (done ++ if succeeds outcome.1 = true then [writing] else []) outcome.2 := by
  -- no writing moves the working directory, so a path has the same place in all trees of a row
  have hretains := houtcome.retains
  have hleads : ∀ other ∈ done, outcome.2.resolve other.path = .ok (before.place other.path) :=
    fun other hother => hretains.resolve_eq_ok (h.leads other hother)
  have hdirectory := hretains.workingDirectory.trans h.workingDirectory
  have hfile := houtcome.file?_eq
  rw [FileTree.place_congr h.workingDirectory] at hfile
  by_cases hsucceeds : succeeds outcome.1 = true
  · rw [if_pos hsucceeds]
    refine ⟨hdirectory, fun other hother => ?_, fun location => ?_⟩
    · rcases List.mem_append.mp hother with hother | hother
      · exact hleads other hother
      · rw [List.mem_singleton.mp hother, ← FileTree.place_congr hdirectory]
        exact (houtcome.hasText hsucceeds).place.1
    · rw [hfile, lastTo?_concat]
      by_cases hplace : before.place writing.path = location
      · rw [if_pos ⟨hsucceeds, hplace.symm⟩, if_pos hplace]
        rfl
      · rw [if_neg fun hboth => hplace hboth.2.symm, if_neg hplace]
        exact h.files location
  · rw [if_neg hsucceeds, List.append_nil]
    refine ⟨hdirectory, hleads, fun location => ?_⟩
    rw [hfile, if_neg fun hboth => hsucceeds hboth.1]
    exact h.files location

/-- What a row of writings comes to, told from those that succeeded. -/
theorem Settled.writeEach (h : Settled before done tree) (writings : List Writing) :
    Settled before (done ++ succeeded writings (writeEach tree writings).value.1)
      (writeEach tree writings).value.2 := by
  induction writings generalizing done tree with
  | nil =>
    rw [succeeded, List.zip_nil_left, List.filter_nil, List.map_nil, List.append_nil]
    exact h
  | cons writing writings ih =>
    have hfirst := h.concat (write_outcome writing.dryRun tree writing.path writing.content)
    have hall := ih hfirst
    rw [List.append_assoc, ← succeeded_cons] at hall
    exact hall

/-- The path of a successful writing has the text of the last one to its file. -/
theorem Settled.exists_hasText (h : Settled before done after) (hwriting : writing ∈ done) :
    ∃ last, lastTo? before (before.place writing.path) done = some last ∧
      after.HasText writing.path last.content := by
  obtain ⟨last, hlast⟩ := exists_lastTo? before hwriting
  refine ⟨last, hlast, _, h.leads writing hwriting, ?_⟩
  rw [← FileTree.file?_eq_some_iff, h.files, hlast]
  rfl

/-- A text is written only to a file that does not hold it yet, and what was written reads back: at
once, so that writing it again changes nothing, and after any number of other writings, until one of
them gives the same file another text. -/
theorem write_reads_back (tree : FileTree) :
    (∀ dryRun path content,
        Outcome path content tree dryRun (write dryRun tree path content).value) ∧
      (∀ path content,
        (write false tree path content).value.1 = .ok (.unchanged path) ↔
          tree.HasText path content) ∧
      (∀ path content, succeeds (write false tree path content).value.1 = true →
        (write false (write false tree path content).value.2 path content).value =
          (.ok (.unchanged path), (write false tree path content).value.2)) ∧
      ∀ writings,
        Settled tree (succeeded writings (writeEach tree writings).value.1)
            (writeEach tree writings).value.2 ∧
          ∀ writing ∈ succeeded writings (writeEach tree writings).value.1,
            ∃ last, lastTo? tree (tree.place writing.path)
                (succeeded writings (writeEach tree writings).value.1) = some last ∧
              (writeEach tree writings).value.2.HasText writing.path last.content := by
  refine ⟨fun dryRun path content => write_outcome dryRun tree path content,
    fun path content => (write_outcome false tree path content).unchanged_iff,
    fun path content hsucceeds => ?_, fun writings => ?_⟩
  · have htext := (write_outcome false tree path content).hasText hsucceeds
    exact write_of_same (FileTree.readText_eq_ok_iff.mpr htext)
  · have hsettled := (settled_nil tree).writeEach writings
    rw [List.nil_append] at hsettled
    exact ⟨hsettled, fun writing hwriting => hsettled.exists_hasText hwriting⟩

end Limited

def twiceSample : List Writing :=
  [⟨false, "d/f", "1"⟩, ⟨false, "d//f", "22"⟩]

/-- The text that was written last is read under both paths, and writing it again changes
nothing. -/
theorem write_reads_back_twiceSample :
    (writeEach .empty twiceSample).value.1 = [.ok (.written "d/f" 1), .ok (.written "d//f" 2)] ∧
      Settled .empty twiceSample (writeEach .empty twiceSample).value.2 ∧
      (writeEach .empty twiceSample).value.2.HasText "d/f" "22" ∧
      (writeEach .empty twiceSample).value.2.HasText "d//f" "22" ∧
      (write false (writeEach .empty twiceSample).value.2 "d/f" "22").value.1 =
        .ok (.unchanged "d/f") := by
  have hresults : (writeEach .empty twiceSample).value.1 =
      [.ok (.written "d/f" 1), .ok (.written "d//f" 2)] := by decide +kernel
  have hcontent : ∀ writing ∈ twiceSample,
      (lastTo? .empty (FileTree.empty.place writing.path) twiceSample).map (·.content) =
        some "22" := by decide +kernel
  have hdone : succeeded twiceSample [.ok (.written "d/f" 1), .ok (.written "d//f" 2)] =
      twiceSample := rfl
  obtain ⟨hsettled, hlast⟩ := (write_reads_back .empty).2.2.2 twiceSample
  rw [hresults, hdone] at hsettled hlast
  have htext : ∀ writing ∈ twiceSample,
      (writeEach .empty twiceSample).value.2.HasText writing.path "22" := by
    intro writing hwriting
    obtain ⟨last, hlast, htext⟩ := hlast writing hwriting
    have hlastContent := hcontent writing hwriting
    rw [hlast] at hlastContent
    have heq : last.content = "22" := Option.some.inj hlastContent
    rwa [heq] at htext
  have hfirst := htext _ List.mem_cons_self
  refine ⟨hresults, hsettled, hfirst, htext _ (List.mem_cons_of_mem _ List.mem_cons_self), ?_⟩
  exact ((write_reads_back (writeEach .empty twiceSample).value.2).2.1 _ _).mpr hfirst

end Output

end ModuleSurface
