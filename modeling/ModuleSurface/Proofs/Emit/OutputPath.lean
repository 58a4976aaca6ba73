import ModuleSurface.Emit.Emitter
import ModuleSurface.Proofs.FileTree.Path

/-!
# OutputPath — the emitted files of different modules and emitters do not get in each other's way

The directories of an emitted path come from dotted segments and have no dots in them, while every
file has one before its extension (`exists_segments`).  So no emitted path is another one or stands
below it, and the name and the emitter can be read off the path (`eq_of_prefix_segments`).
-/

namespace ModuleSurface

open ModuleSurface.Path (Name isIdle above)

/-! ## 1. The pieces of a name -/

namespace OutputPath

def pieces : Shape → List Char → List Name
  | .flat, name => [name]
  | .nested, name => segments name

theorem stem_eq_join (shape : Shape) (name : List Char) :
    stem shape name = Text.join ['/'] (pieces shape name) := by
  cases shape <;> rfl

theorem pieces_ne_nil (shape : Shape) (name : List Char) : pieces shape name ≠ [] := by
  cases shape with
  | flat => exact List.cons_ne_nil _ _
  | nested => exact Text.split_ne_nil '.' name

theorem pieces_injective {shape : Shape} {name name' : List Char}
    (h : pieces shape name = pieces shape name') : name = name' := by
  cases shape with
  | flat => exact List.singleton_inj.mp h
  | nested =>
    have hsplit : Text.split '.' name = Text.split '.' name' := h
    rw [← Text.join_split '.' name, hsplit, Text.join_split]

theorem mem_of_mem_pieces {shape : Shape} {name piece : List Char} {c : Char}
    (hpiece : piece ∈ pieces shape name) (hc : c ∈ piece) : c ∈ name := by
  cases shape with
  | flat =>
    rw [pieces, List.mem_singleton] at hpiece
    rwa [← hpiece]
  | nested => exact Text.mem_of_mem_split hpiece hc

theorem dot_not_mem_of_mem_front {shape : Shape} {name last : List Char} {front : List Name}
    (h : pieces shape name = front ++ [last]) : ∀ piece ∈ front, '.' ∉ piece := by
  intro piece hpiece
  cases shape with
  | flat =>
    have hfront : front = [] := by
      have hlength := congrArg List.length h
      simpa [pieces] using hlength
    rw [hfront] at hpiece
    exact absurd hpiece List.not_mem_nil
  | nested =>
    have hmem : piece ∈ Text.split '.' name :=
      (show Text.split '.' name = front ++ [last] from h) ▸ List.mem_append_left _ hpiece
    exact Text.not_mem_of_mem_split hmem

/-! ## 2. The segments of an emitted path -/

theorem nameFault?_eq_none_iff {name : List Char} :
    nameFault? name = none ↔
      name ≠ [] ∧ (∀ c ∈ name, isSeparator c = false) ∧ [] ∉ segments name := by
  unfold nameFault?
  by_cases hempty : name = []
  · simp [hempty]
  · rw [if_neg (by simpa using hempty)]
    by_cases hfree : ∀ c ∈ name, isSeparator c = false
    · rw [if_neg (by simpa using hfree), and_iff_right hempty, and_iff_right hfree]
      simp
    · rw [if_pos (by simpa using hfree)]
      simp only [reduceCtorEq, false_iff]
      exact fun h => hfree h.2.1

theorem pieces_ne_nil_of_mem {shape : Shape} {name piece : List Char}
    (h : nameFault? name = none) (hpiece : piece ∈ pieces shape name) : piece ≠ [] := by
  obtain ⟨hempty, -, hsegments⟩ := nameFault?_eq_none_iff.mp h
  rintro rfl
  cases shape with
  | flat => exact hempty (List.mem_singleton.mp hpiece).symm
  | nested => exact hsegments hpiece

theorem ofName_eq_ok_iff {shape : Shape} {extension name path : String} :
    ofName shape extension name = .ok path ↔
      nameFault? name.toList = none ∧
        path = String.ofList (stem shape name.toList) ++ "." ++ extension := by
  unfold ofName
  cases nameFault? name.toList <;> simp [eq_comm]

/-- The segments of an emitted path: the pieces of the name, with the extension on the last one. -/
theorem exists_segments {shape : Shape} {extension name path : String}
    (h : ofName shape extension name = .ok path) (hextension : '/' ∉ extension.toList) :
    ∃ front last, pieces shape name.toList = front ++ [last] ∧
      Path.segments path = front ++ [last ++ '.' :: extension.toList] := by
  obtain ⟨hfault, rfl⟩ := ofName_eq_ok_iff.mp h
  obtain ⟨-, hfree, -⟩ := nameFault?_eq_none_iff.mp hfault
  obtain ⟨front, last, hpieces⟩ : ∃ front last, pieces shape name.toList = front ++ [last] :=
    ⟨_, _, (List.dropLast_concat_getLast (pieces_ne_nil shape name.toList)).symm⟩
  refine ⟨front, last, hpieces, ?_⟩
  have hslash : ∀ piece ∈ front ++ [last], '/' ∉ piece := fun piece hpiece hmem => by
    have hseparator := hfree '/' (mem_of_mem_pieces (hpieces ▸ hpiece) hmem)
    contradiction
  have htext : (String.ofList (stem shape name.toList) ++ "." ++ extension).toList =
      Text.join ['/'] (front ++ [last ++ '.' :: extension.toList]) := by
    rw [String.toList_append, String.toList_append, String.toList_ofList, stem_eq_join, hpieces,
      List.append_assoc]
    exact Text.join_concat_append ['/'] last ('.' :: extension.toList) front
  -- no slash but those between the pieces, so that cutting gives the pieces back
  rw [Path.segments, htext]
  refine Text.split_join ?_ (by simp)
  intro piece hpiece
  rcases List.mem_append.mp hpiece with hfront | hlast
  · exact hslash piece (List.mem_append_left _ hfront)
  · rw [List.mem_singleton.mp hlast]
    have hlastFree := hslash last (by simp)
    simp [hlastFree, hextension]

end OutputPath

/-! ## 3. Emitted paths apart from each other -/

namespace Emitter

variable {emitter : Emitter} {module path : String}

theorem path_eq_ok_iff :
    emitter.path module = .ok path ↔
      OutputPath.ofName emitter.pathShape emitter.extension module = .ok path := by
  unfold Emitter.path
  cases OutputPath.ofName emitter.pathShape emitter.extension module <;> simp [Except.mapError]

theorem path_of_emit {config : EmitConfig} {module : Module} {file : EmittedFile}
    (h : (emitter.emit config module).value = .ok file) :
    emitter.path module.name = .ok file.path := by
  simp only [emit, Logged.bind_value, Logged.pure_value] at h
  cases hpath : emitter.path module.name with
  | error fault =>
    rw [hpath] at h
    contradiction
  | ok path =>
    rw [hpath] at h
    rw [← Except.ok.inj h]

theorem exists_path_eq_ok (emitter : Emitter)
    (h : OutputPath.nameFault? module.toList = none) : ∃ path, emitter.path module = .ok path := by
  exact ⟨_, path_eq_ok_iff.mpr (OutputPath.ofName_eq_ok_iff.mpr ⟨h, rfl⟩)⟩

theorem exists_segments_path (h : emitter.path module = .ok path) :
    ∃ front last, OutputPath.pieces emitter.pathShape module.toList = front ++ [last] ∧
      Path.segments path = front ++ [last ++ '.' :: emitter.extension.toList] := by
  have hextension : '/' ∉ emitter.extension.toList := by cases emitter <;> decide
  exact OutputPath.exists_segments (path_eq_ok_iff.mp h) hextension

/-- Every segment of an emitted path is the name of an entry, without the null character. -/
theorem isPlain_path (h : emitter.path module = .ok path) : Path.IsPlain path := by
  have hfault := (OutputPath.ofName_eq_ok_iff.mp (path_eq_ok_iff.mp h)).1
  obtain ⟨front, last, hpieces, hsegments⟩ := exists_segments_path h
  have hnull : ∀ piece ∈ front ++ [last], '\x00' ∉ piece := fun piece hpiece hmem => by
    have hfree := (OutputPath.nameFault?_eq_none_iff.mp hfault).2.1 _
      (OutputPath.mem_of_mem_pieces (hpieces ▸ hpiece) hmem)
    contradiction
  rw [Path.IsPlain, hsegments]
  intro name hname
  rcases List.mem_append.mp hname with hfront | hleaf
  · have hdot := OutputPath.dot_not_mem_of_mem_front hpieces name hfront
    have hne := OutputPath.pieces_ne_nil_of_mem hfault (hpieces ▸ List.mem_append_left _ hfront)
    refine ⟨?_, ?_, hnull name (List.mem_append_left _ hfront)⟩
    · rw [isIdle, Bool.or_eq_false_iff, List.isEmpty_eq_false_iff, beq_eq_false_iff_ne]
      exact ⟨hne, by rintro rfl; exact hdot List.mem_cons_self⟩
    · rintro rfl
      exact hdot List.mem_cons_self
  · rw [List.mem_singleton.mp hleaf]
    -- too long for one of the names that are not entries
    have hlength : 3 ≤ (last ++ '.' :: emitter.extension.toList).length := by
      cases emitter <;> simp [extension]
    have hlast := hnull last (by simp)
    refine ⟨?_, ?_, ?_⟩
    · rw [isIdle, Bool.or_eq_false_iff, List.isEmpty_eq_false_iff, beq_eq_false_iff_ne]
      constructor <;> intro hshort <;> rw [hshort] at hlength <;> contradiction
    · intro hshort
      rw [hshort] at hlength
      contradiction
    · cases emitter <;> simp [hlast, extension]

/-- No emitted path stands at or below another one: the path tells the emitter and the module. -/
theorem eq_of_prefix_segments {emitter' : Emitter} {module' path' : String}
    (h : emitter.path module = .ok path) (h' : emitter'.path module' = .ok path')
    (hbelow : Path.segments path <+: Path.segments path') :
    emitter = emitter' ∧ module = module' := by
  obtain ⟨front, last, hpieces, hsegments⟩ := exists_segments_path h
  obtain ⟨front', last', hpieces', hsegments'⟩ := exists_segments_path h'
  rw [hsegments, hsegments', List.prefix_concat_iff] at hbelow
  rcases hbelow with hsame | habove
  · obtain ⟨hfront, hleaf⟩ := List.append_inj' hsame rfl
    have hleaf := List.singleton_inj.mp hleaf
    have hemitter : emitter = emitter' := by
      have hend := congrArg List.getLast? hleaf
      cases emitter <;> cases emitter' <;> simp [extension] at hend ⊢
    subst hemitter
    have hlast : last = last' := List.append_cancel_right hleaf
    rw [← hfront, ← hlast, ← hpieces] at hpieces'
    exact ⟨rfl, String.toList_inj.mp (OutputPath.pieces_injective hpieces').symm⟩
  · -- the file would be one of the directories, but has a dot
    have hmem := habove.subset (List.mem_append_right front List.mem_cons_self)
    exact absurd (by simp) (OutputPath.dot_not_mem_of_mem_front hpieces' _ hmem)

end Emitter

end ModuleSurface
