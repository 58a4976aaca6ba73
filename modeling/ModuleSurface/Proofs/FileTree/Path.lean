import Mathlib.Data.List.Induction
import Mathlib.Data.List.TakeWhile
import ModuleSurface.FileTree.Path
import ModuleSurface.Proofs.Text.Split

/-!
# Path — where the segments of a path lead, and what its joins and parents are made of

Without links in a tree, where a path leads is a matter of its segments alone (`follow`).  The
segments of a joined path are those of its parts (`exists_segments_join`), and those of the path
above another one are an initial piece of it that ends before its last name (`parent?_cases`).
-/

namespace ModuleSurface.Path

/-! ## 1. Following segments -/

/-- The location that some segments lead to from another one. -/
def follow (location : List Name) : List Name → List Name
  | [] => location
  | name :: names =>
      follow
        (if isIdle name then location
          else if name = above then location.dropLast else location ++ [name])
        names

def kept (segments : List Name) : List Name :=
  segments.filter fun name => !isIdle name

theorem follow_append (location : List Name) (left right : List Name) :
    follow location (left ++ right) = follow (follow location left) right := by
  induction left generalizing location with
  | nil => rfl
  | cons name left ih => exact ih _

theorem kept_append (left right : List Name) : kept (left ++ right) = kept left ++ kept right :=
  List.filter_append ..

theorem kept_of_idle {segments : List Name} (h : ∀ name ∈ segments, isIdle name = true) :
    kept segments = [] := by
  simpa [kept] using h

theorem kept_cons_of_name {name : Name} (h : isIdle name = false) (names : List Name) :
    kept (name :: names) = name :: kept names :=
  List.filter_cons_of_pos (by simp [h])

theorem follow_of_not_mem {segments : List Name} (h : above ∉ segments) (location : List Name) :
    follow location segments = location ++ kept segments := by
  induction segments generalizing location with
  | nil => exact (List.append_nil _).symm
  | cons name segments ih =>
    have hname : name ≠ above := fun hname => h (by simp [hname])
    have hmore : above ∉ segments := fun hmem => h (List.mem_cons_of_mem _ hmem)
    rw [follow, ih hmore, if_neg hname]
    cases hidle : isIdle name <;> simp [kept, hidle]

theorem follow_of_idle {segments : List Name} (h : ∀ name ∈ segments, isIdle name = true)
    (location : List Name) : follow location segments = location := by
  have habove : above ∉ segments := fun hmem => absurd (h above hmem) (by decide)
  rw [follow_of_not_mem habove, kept_of_idle h, List.append_nil]

theorem isIdle_nil : isIdle [] = true := rfl

/-! ## 2. Segments of a path -/

theorem not_mem_of_mem_segments {path : String} {name : Name} (h : name ∈ segments path) :
    '/' ∉ name :=
  Text.not_mem_of_mem_split h

theorem isAbsolute_iff {path : String} {first : Name} {more : List Name} (hne : path ≠ "")
    (h : segments path = first :: more) : isAbsolute path = true ↔ first = [] := by
  have hlist : path.toList ≠ [] := by simpa using hne
  unfold isAbsolute
  unfold segments at h
  cases htext : path.toList with
  | nil => exact absurd htext hlist
  | cons c rest =>
    rw [htext, Text.split] at h
    by_cases hc : c = '/'
    · rw [if_pos hc] at h
      simp [hc, (List.cons.inj h).1.symm]
    · rw [if_neg hc] at h
      split at h <;> simp [hc, (List.cons.inj h).1.symm]

theorem segments_empty : segments "" = [[]] := rfl

/-- A joined path has the segments of the directory, up to an empty one at their end, and then
those of the file. -/
theorem exists_segments_join (directory file : String) :
    ∃ front tail, segments directory = front ++ tail ∧ (∀ name ∈ tail, isIdle name = true) ∧
      segments (join directory file) = front ++ segments file := by
  have hempty : ∀ name ∈ [([] : Name)], isIdle name = true := by simp [isIdle_nil]
  unfold join
  by_cases hnone : directory = ""
  · rw [if_pos hnone, hnone]
    exact ⟨[], [[]], rfl, hempty, rfl⟩
  · rw [if_neg hnone]
    by_cases hslash : directory.toList.getLast? = some '/'
    · -- the directory ends in an empty segment, which the join fills
      rw [if_pos hslash]
      obtain ⟨body, hbody⟩ := List.getLast?_eq_some_iff.mp hslash
      refine ⟨Text.split '/' body, [[]], ?_, hempty, ?_⟩
      · rw [segments, hbody]
        exact Text.split_append_separator '/' body []
      · rw [segments, String.toList_append, hbody, List.append_assoc]
        exact Text.split_append_separator '/' body file.toList
    · rw [if_neg hslash]
      refine ⟨segments directory, [], (List.append_nil _).symm, by simp, ?_⟩
      rw [segments, String.toList_append, String.toList_append, List.append_assoc]
      exact Text.split_append_separator '/' directory.toList file.toList

theorem isAbsolute_join (directory : String) {file : String} (h : isAbsolute file = false) :
    isAbsolute (join directory file) = isAbsolute directory := by
  unfold join
  by_cases hnone : directory = ""
  · rw [if_pos hnone, h, hnone]
    rfl
  · obtain ⟨c, rest, hdirectory⟩ : ∃ c rest, directory.toList = c :: rest :=
      List.exists_cons_of_ne_nil (by simpa using hnone)
    rw [if_neg hnone]
    unfold isAbsolute
    split <;> simp only [String.toList_append, hdirectory, List.cons_append, List.head?_cons]

theorem mem_join {directory file : String} {c : Char} (h : c ∈ (join directory file).toList) :
    c ∈ directory.toList ∨ c = '/' ∨ c ∈ file.toList := by
  unfold join at h
  split at h
  · exact .inr (.inr h)
  · split at h
    · rw [String.toList_append, List.mem_append] at h
      exact h.imp_right .inr
    · rw [String.toList_append, String.toList_append, List.mem_append, List.mem_append,
        or_assoc] at h
      exact h.imp_right (Or.imp_left (by simp))

/-- Whether every segment of a path is the name of an entry. -/
def IsPlain (path : String) : Prop :=
  ∀ name ∈ segments path, isIdle name = false ∧ name ≠ above ∧ '\x00' ∉ name

theorem IsPlain.null {path : String} (h : IsPlain path) : '\x00' ∉ path.toList := by
  intro hmem
  obtain ⟨name, hname, hmem⟩ := Text.exists_mem_split hmem (show '\x00' ≠ '/' by decide)
  exact (h name hname).2.2 hmem

/-! ## 3. The path above -/

theorem exists_dropIdle (names : List Name) :
    ∃ tail, names = dropIdle names ++ tail ∧ ∀ name ∈ tail, isIdle name = true := by
  cases names with
  | nil => exact ⟨[], rfl, by simp⟩
  | cons first rest =>
    refine ⟨(rest.reverse.takeWhile isIdle).reverse, ?_, ?_⟩
    · rw [dropIdle, List.cons_append, ← List.reverse_append, List.takeWhile_append_dropWhile,
        List.reverse_reverse]
    · intro name hname
      exact List.mem_takeWhile_imp (List.mem_reverse.mp hname)

theorem exists_last_of_names (names : List Name) :
    (∀ name ∈ names, isIdle name = true) ∨
      ∃ front last tail, names = front ++ last :: tail ∧ isIdle last = false ∧
        ∀ name ∈ tail, isIdle name = true := by
  induction names using List.reverseRecOn with
  | nil => exact .inl (by simp)
  | append_singleton names name ih =>
    by_cases hname : isIdle name = true
    · rcases ih with hidle | ⟨front, last, tail, rfl, hlast, htail⟩
      · exact .inl (by simpa [hname, or_imp, forall_and] using hidle)
      · refine .inr ⟨front, last, tail ++ [name], by simp, hlast, ?_⟩
        simpa [hname, or_imp, forall_and] using htail
    · exact .inr ⟨names, name, [], rfl, by simpa using hname, by simp⟩

theorem dropIdle_ne_nil {names : List Name} (h : names ≠ []) : dropIdle names ≠ [] := by
  cases names with
  | nil => contradiction
  | cons first rest => exact List.cons_ne_nil _ _

theorem dropIdle_of_idle {first : Name} {rest : List Name}
    (h : ∀ name ∈ rest, isIdle name = true) : dropIdle (first :: rest) = [first] := by
  have hreverse : ∀ name ∈ rest.reverse, isIdle name = true :=
    fun name hname => h name (List.mem_reverse.mp hname)
  rw [dropIdle, List.dropWhile_eq_nil_iff.mpr hreverse]
  rfl

theorem dropIdle_append_cons (names : List Name) {last : Name} {tail : List Name}
    (hlast : isIdle last = false) (htail : ∀ name ∈ tail, isIdle name = true) :
    dropIdle (names ++ last :: tail) = names ++ [last] := by
  have hreverse : ∀ name ∈ tail.reverse, isIdle name = true :=
    fun name hname => htail name (List.mem_reverse.mp hname)
  cases names with
  | nil => exact dropIdle_of_idle htail
  | cons first rest =>
    rw [List.cons_append, dropIdle, List.reverse_append, List.reverse_cons, List.append_assoc,
      List.dropWhile_append_of_pos hreverse, List.singleton_append,
      List.dropWhile_cons_of_neg (by simp [hlast]), List.reverse_cons, List.reverse_reverse]
    rfl

theorem segments_ofSegments {names : List Name} (hne : names ≠ []) (hroot : names ≠ [[]])
    (hslash : ∀ name ∈ names, '/' ∉ name) : segments (ofSegments names) = names := by
  rw [ofSegments, if_neg hroot, segments, String.toList_ofList, Text.split_join hslash hne]

/-- The text of the first segments of a path is a path that starts where that path does. -/
theorem ofSegments_initial {path : String} {front : List Name} (hne : front ≠ [])
    (hroot : front ≠ [[]]) (h : front <+: segments path) :
    segments (ofSegments front) = front ∧ ofSegments front ≠ "" ∧
      isAbsolute (ofSegments front) = isAbsolute path := by
  have hsegments : segments (ofSegments front) = front :=
    segments_ofSegments hne hroot fun name hname => not_mem_of_mem_segments (h.subset hname)
  have hfrontNe : ofSegments front ≠ "" := by
    intro hempty
    rw [hempty] at hsegments
    exact hroot hsegments.symm
  obtain ⟨rest, hpath⟩ := h
  cases front with
  | nil => contradiction
  | cons first more =>
    have hpathNe : path ≠ "" := by
      rintro rfl
      rw [segments_empty, List.cons_append, List.cons.injEq, List.append_eq_nil_iff] at hpath
      exact hroot (by rw [hpath.1, hpath.2.1])
    refine ⟨hsegments, hfrontNe, ?_⟩
    rw [Bool.eq_iff_iff, isAbsolute_iff hfrontNe hsegments, isAbsolute_iff hpathNe hpath.symm]

theorem not_mem_ofSegments_initial {path : String} {front : List Name} {c : Char}
    (hne : front ≠ []) (hroot : front ≠ [[]]) (h : front <+: segments path) (hc : c ≠ '/')
    (hnot : c ∉ path.toList) : c ∉ (ofSegments front).toList := by
  intro hmem
  obtain ⟨name, hname, hmem⟩ := Text.exists_mem_split hmem hc
  have hsegments : Text.split '/' (ofSegments front).toList = front :=
    (ofSegments_initial hne hroot h).1
  exact hnot (Text.mem_of_mem_split (h.subset (hsegments ▸ hname)) hmem)

/-- A path that is an initial piece of another one and ends before a name of it. -/
structure Above (upper path : String) : Prop where
  ne_empty : upper ≠ ""
  isAbsolute_eq : isAbsolute upper = isAbsolute path
  exists_rest : ∃ rest, segments path = segments upper ++ rest ∧
    ∃ name ∈ rest, isIdle name = false

theorem Above.trans {first second third : String} (h : Above first second)
    (h' : Above second third) : Above first third := by
  obtain ⟨rest, hrest, hname⟩ := h.exists_rest
  obtain ⟨rest', hrest', -⟩ := h'.exists_rest
  refine ⟨h.ne_empty, h.isAbsolute_eq.trans h'.isAbsolute_eq, rest ++ rest', ?_, ?_⟩
  · rw [hrest', hrest, List.append_assoc]
  · obtain ⟨name, hmem, hidle⟩ := hname
    exact ⟨name, List.mem_append_left _ hmem, hidle⟩

theorem concat_ne_root (front : List Name) {last : Name} (hlast : isIdle last = false) :
    front ++ [last] ≠ [[]] := by
  intro hroot
  have hend := congrArg List.getLast? hroot
  rw [List.getLast?_concat, List.getLast?_singleton, Option.some.injEq] at hend
  rw [hend] at hlast
  contradiction

/-- The path above one that has a name in it ends before the last of its names. -/
theorem parent?_of_last {path : String} {front tail : List Name} {last : Name}
    (h : segments path = front ++ last :: tail) (hlast : isIdle last = false)
    (htail : ∀ name ∈ tail, isIdle name = true) :
    parent? path = some (if front = [] then "" else ofSegments (dropIdle front)) := by
  have hne : path ≠ "" := by
    rintro rfl
    have hmem : last ∈ segments "" := by simp [h]
    rw [segments_empty, List.mem_singleton] at hmem
    rw [hmem] at hlast
    contradiction
  unfold parent?
  rw [if_neg hne, h, dropIdle_append_cons front hlast htail]
  cases front with
  | nil =>
    cases last with
    | nil => contradiction
    | cons c more => rfl
  | cons first more =>
    obtain ⟨second, rest, hrest⟩ : ∃ second rest, more ++ [last] = second :: rest :=
      List.exists_cons_of_ne_nil (by simp)
    have hfront : (first :: second :: rest).dropLast = first :: more := by
      rw [← hrest, ← List.cons_append, List.dropLast_concat]
    rw [if_neg (List.cons_ne_nil first more), List.cons_append, hrest]
    simp only [hfront]

theorem parent?_of_idle {path parent : String} (h : ∀ name ∈ segments path, isIdle name = true)
    (hparent : parent? path = some parent) : parent = "" := by
  unfold parent? at hparent
  split at hparent
  · contradiction
  · cases hsegments : segments path with
    | nil => exact absurd hsegments (Text.split_ne_nil _ _)
    | cons first rest =>
      rw [hsegments] at h hparent
      rw [dropIdle_of_idle (List.forall_mem_cons.mp h).2] at hparent
      cases first with
      | nil => contradiction
      | cons c more => exact (Option.some.inj hparent).symm

/-- The path above another one is empty, or the root, or an initial piece of it. -/
theorem parent?_cases {path parent : String} (h : parent? path = some parent) :
    parent = "" ∨ (parent = "/" ∧ isAbsolute path = true) ∨ Above parent path := by
  have hempty : parent? "" = none := by decide +kernel
  have hne : path ≠ "" := by
    rintro rfl
    rw [hempty] at h
    contradiction
  rcases exists_last_of_names (segments path) with hidle | ⟨front, last, tail, hpath, hlast, htail⟩
  · exact .inl (parent?_of_idle hidle h)
  · rw [parent?_of_last hpath hlast htail, Option.some.injEq] at h
    by_cases hnone : front = []
    · rw [if_pos hnone] at h
      exact .inl h.symm
    · rw [if_neg hnone] at h
      obtain ⟨between, hfront, -⟩ := exists_dropIdle front
      have hrest : segments path = dropIdle front ++ (between ++ last :: tail) := by
        rw [← List.append_assoc, ← hfront, hpath]
      -- the root is the one path whose text is not that of its segments
      by_cases hroot : dropIdle front = [[]]
      · rw [hroot] at h hrest
        exact .inr (.inl ⟨h.symm, (isAbsolute_iff hne hrest).mpr rfl⟩)
      · obtain ⟨hsegments, hparentNe, habsolute⟩ :=
          ofSegments_initial (dropIdle_ne_nil hnone) hroot ⟨_, hrest.symm⟩
        rw [h] at hsegments hparentNe habsolute
        exact .inr (.inr ⟨hparentNe, habsolute, between ++ last :: tail, by rw [hsegments, hrest],
          last, by simp, hlast⟩)

theorem above_of_parent?_eq_some {path parent grand : String} (hparent : parent? path = some parent)
    (hgrand : parent? parent = some grand) : Above parent path := by
  have hempty : parent? "" = none := by decide +kernel
  have hroot : parent? "/" = none := by decide +kernel
  rcases parent?_cases hparent with rfl | ⟨rfl, -⟩ | habove
  · rw [hempty] at hgrand
    contradiction
  · rw [hroot] at hgrand
    contradiction
  · exact habove

/-- The paths that are made for the path above another one are initial pieces of that. -/
theorem above_of_mem_ancestorsFrom {bound : Nat} {path parent upper : String}
    (hparent : parent? path = some parent) (h : upper ∈ ancestorsFrom bound parent) :
    Above upper path := by
  induction bound generalizing path parent with
  | zero => exact absurd h List.not_mem_nil
  | succ bound ih =>
    rw [ancestorsFrom] at h
    split at h
    · exact absurd h List.not_mem_nil
    · rename_i grand hgrand
      have habove := above_of_parent?_eq_some hparent hgrand
      rcases List.mem_cons.mp h with rfl | hmem
      · exact habove
      · exact (ih hgrand hmem).trans habove

end ModuleSurface.Path
