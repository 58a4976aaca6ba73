import Mathlib.Data.List.Basic
import Mathlib.Data.List.ModifyLast
import ModuleSurface.Proofs.Emit.OutputPath
import ModuleSurface.Proofs.Output.Contained

/-!
# Emitted — what an emitter gives can be written below any directory

Whether a module can be emitted is a matter of the characters of its name alone (`IsFit`).  The
path that it gets is looked at again when it is written, by its components; these are names only
(`components_of_isPlain`), so that no emitted file is refused (`emit_eq_ok_iff_isFit`).
-/

namespace ModuleSurface

open ModuleSurface.Path (Name IsPlain isIdle above here segments component? components)

/-! ## 1. Components of plain paths -/

namespace Path

theorem component?_of_name {name : Name} (hidle : isIdle name = false) (habove : name ≠ above) :
    component? name = some (.plain name) := by
  rw [component?, if_neg (by simp [hidle]), if_neg habove]

/-- The first segment of a plain path is no exception among its components. -/
theorem components_of_isPlain {path : String} (h : IsPlain path) :
    components path = (segments path).map .plain := by
  have hnames : ∀ name ∈ segments path, isIdle name = false ∧ name ≠ above :=
    fun name hname => ⟨(h name hname).1, (h name hname).2.1⟩
  have hne : path ≠ "" := by
    rintro rfl
    exact absurd (hnames [] (by simp [segments_empty])).1 (by decide)
  unfold components
  rw [if_neg hne]
  cases hsegments : segments path with
  | nil => exact absurd hsegments (Text.split_ne_nil _ _)
  | cons first rest =>
    rw [hsegments] at hnames
    obtain ⟨hfirst, hrest⟩ := List.forall_mem_cons.mp hnames
    have hmore : rest.filterMap component? = rest.map .plain :=
      List.filterMap_eq_map_iff_forall_eq_some.mpr fun name hname =>
        component?_of_name (hrest name hname).1 (hrest name hname).2
    -- neither exception for a first segment applies
    have hroot : ¬first.isEmpty = true := by
      rw [List.isEmpty_iff]
      rintro rfl
      exact absurd hfirst.1 (by decide)
    have hhere : first ≠ here := by
      rintro rfl
      exact absurd hfirst.1 (by decide)
    dsimp only
    rw [if_neg hroot, if_neg hhere, component?_of_name hfirst.1 hfirst.2, hmore]
    rfl

end Path

/-! ## 2. Names that give a path -/

/-- Whether a name is made of dotted segments, none of them empty, and has no separator in it. -/
structure OutputPath.IsFit (name : String) : Prop where
  ne_empty : name ≠ ""
  unseparated : ∀ c ∈ ['/', '\\', ':', '\x00'], c ∉ name.toList
  segments : [] ∉ Text.split '.' name.toList

theorem OutputPath.isFit_iff {name : String} :
    IsFit name ↔ nameFault? name.toList = none := by
  have hseparators : (∀ c ∈ name.toList, isSeparator c = false) ↔
      ∀ c ∈ ['/', '\\', ':', '\x00'], c ∉ name.toList := by
    constructor
    · intro h c hc hmem
      have hfree := h c hmem
      simp only [List.mem_cons, List.not_mem_nil, or_false] at hc
      rcases hc with rfl | rfl | rfl | rfl <;> contradiction
    · intro h c hmem
      by_contra hseparator
      refine h c ?_ hmem
      rw [Bool.not_eq_false] at hseparator
      simpa [isSeparator, or_assoc] using hseparator
  rw [nameFault?_eq_none_iff, hseparators]
  constructor
  · exact fun h => ⟨by simpa using h.ne_empty, h.unseparated, h.segments⟩
  · exact fun ⟨hne, hfree, hsegments⟩ => ⟨by simpa using hne, hfree, hsegments⟩

namespace Emitter

/-- The names on the way from the output directory to the file of a module. -/
def names : Emitter → String → List Name
  | stub, module => (Text.split '.' module.toList).modifyLast (· ++ ".pyi".toList)
  | markdown, module => [module.toList ++ ".md".toList]

theorem segments_eq_names {emitter : Emitter} {module path : String}
    (h : emitter.path module = .ok path) : segments path = emitter.names module := by
  obtain ⟨front, last, hpieces, hsegments⟩ := exists_segments_path h
  rw [hsegments]
  cases emitter with
  | stub =>
    have hsplit : Text.split '.' module.toList = front ++ [last] := hpieces
    rw [names, hsplit, List.modifyLast_concat]
    rfl
  | markdown =>
    have hsingle : [] ++ [module.toList] = front ++ [last] := hpieces
    obtain ⟨rfl, hlast⟩ := List.append_inj' hsingle rfl
    rw [names, List.singleton_inj.mp hlast]
    rfl

theorem exists_emit_eq_ok_iff (emitter : Emitter) (config : EmitConfig) (module : Module) :
    (∃ file, (emitter.emit config module).value = .ok file) ↔
      OutputPath.IsFit module.name := by
  rw [OutputPath.isFit_iff]
  constructor
  · rintro ⟨file, hfile⟩
    exact (OutputPath.ofName_eq_ok_iff.mp (path_eq_ok_iff.mp (path_of_emit hfile))).1
  · intro hfault
    obtain ⟨path, hpath⟩ := emitter.exists_path_eq_ok hfault
    simp only [emit, Logged.bind_value, Logged.pure_value, hpath]
    exact ⟨_, rfl⟩

/-- The name of a module alone decides whether it can be emitted.  If it can, the components of the
path are names only, one for each dotted segment or a single one, and writing the file below any
directory does not refuse it. -/
theorem emit_eq_ok_iff_isFit (emitter : Emitter) (config : EmitConfig) (module : Module) :
    ((∃ file, (emitter.emit config module).value = .ok file) ↔
        OutputPath.IsFit module.name) ∧
      ∀ file, (emitter.emit config module).value = .ok file →
        components file.path = (emitter.names module.name).map .plain ∧
          ∀ [FileTree.Limits] (dryRun : Bool) (tree : FileTree) (directory other : String),
            (Output.writeEmitted dryRun tree directory file).value.1 ≠ .error (.outside other) := by
  refine ⟨exists_emit_eq_ok_iff emitter config module, fun file hfile => ⟨?_, ?_⟩⟩
  · rw [Path.components_of_isPlain (isPlain_path (path_of_emit hfile)),
      segments_eq_names (path_of_emit hfile)]
  · intro _ dryRun tree directory other
    have hcontained : Path.isContained file.path = true :=
      (Path.isContained_eq_true_iff file.path).mpr (isPlain_path (path_of_emit hfile)).not_leadsOut
    rw [Output.writeEmitted, if_pos hcontained]
    exact Output.write_ne_outside dryRun tree _ _ other

end Emitter

end ModuleSurface
