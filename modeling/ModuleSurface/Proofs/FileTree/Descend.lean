import ModuleSurface.Proofs.FileTree.Frame

/-!
# Descend — making the directories of a path that may be missing

A path may lead through directories that are there to a location, and then on through names that
may be missing (`Descends`).  As long as no file stands in the way, making the directories above it
succeeds, and then every name on the way has one (`makeEach_of_descends`).
-/

namespace ModuleSurface.FileTree

open ModuleSurface.Path (Name kept isIdle above segments)

/-! ## 1. Names behind a location -/

/-- Whether nothing but directories stands at some names behind a location. -/
def Clear (tree : FileTree) (there : Location) (names : List Name) : Prop :=
  ∀ front, front <+: names →
    tree.get? (there ++ front) = none ∨ tree.get? (there ++ front) = some .directory

/-- Whether a directory stands at a location and at each of some names behind it. -/
def Stands (tree : FileTree) (there : Location) (names : List Name) : Prop :=
  ∀ front, front <+: names → tree.get? (there ++ front) = some .directory

/-- A tree that still has all the entries of another one. -/
structure Keeps (before after : FileTree) : Prop where
  workingDirectory : after.workingDirectory = before.workingDirectory
  entries : ∀ location entry, before.get? location = some entry → after.get? location = some entry

/-- A tree in which all the paths that lead to something in another one still do.  A file may have
another text. -/
structure Retains (before after : FileTree) : Prop where
  workingDirectory : after.workingDirectory = before.workingDirectory
  directories : ∀ location, before.get? location = some .directory →
    after.get? location = some .directory
  entries : ∀ location, before.get? location ≠ none → after.get? location ≠ none

/-- A tree that has got the directories at some names behind a location, and nothing else. -/
structure Opened (there : Location) (names : List Name) (before after : FileTree) : Prop where
  grows : Grows (fun location => ∃ front, front <+: names ∧ location = there ++ front) before after
  stands : after.Stands there names

variable {tree before after : FileTree} {there : Location} {names : List Name} {last : Name}

theorem isDirectoryAt_iff {location : Location} :
    tree.isDirectoryAt location = true ↔ tree.get? location = some .directory :=
  beq_iff_eq

theorem Clear.initial {front : List Name} (h : tree.Clear there names) (hfront : front <+: names) :
    tree.Clear there front :=
  fun upper hupper => h upper (hupper.trans hfront)

theorem Clear.of_cons {name : Name} (h : tree.Clear there (name :: names)) :
    tree.Clear (there ++ [name]) names := by
  intro front hfront
  have hmore := h (name :: front) (List.cons_prefix_cons.mpr ⟨rfl, hfront⟩)
  rwa [List.append_assoc, List.singleton_append]

theorem Stands.location (h : tree.Stands there names) : tree.get? there = some .directory := by
  have hthere := h [] (List.nil_prefix)
  rwa [List.append_nil] at hthere

theorem clear_concat (h : tree.Clear there names)
    (hlast : tree.get? (there ++ names ++ [last]) = none) : tree.Clear there (names ++ [last]) := by
  intro front hfront
  rcases List.prefix_concat_iff.mp hfront with rfl | hfront
  · rw [← List.append_assoc]
    exact .inl hlast
  · exact h front hfront

theorem stands_nil (h : tree.get? there = some .directory) : tree.Stands there [] := by
  intro front hfront
  rwa [List.prefix_nil.mp hfront, List.append_nil]

theorem stands_cons_iff {name : Name} (hthere : tree.get? there = some .directory) :
    tree.Stands there (name :: names) ↔ tree.Stands (there ++ [name]) names := by
  constructor
  · intro h front hfront
    have hmore := h (name :: front) (List.cons_prefix_cons.mpr ⟨rfl, hfront⟩)
    rwa [List.append_assoc, List.singleton_append]
  · intro h front hfront
    rcases List.prefix_cons_iff.mp hfront with rfl | ⟨more, rfl, hmore⟩
    · rwa [List.append_nil]
    · have hfront := h more hmore
      rwa [List.append_assoc, List.singleton_append] at hfront

theorem stands_concat (h : tree.Stands there names)
    (hlast : tree.get? (there ++ names ++ [last]) = some .directory) :
    tree.Stands there (names ++ [last]) := by
  intro front hfront
  rcases List.prefix_concat_iff.mp hfront with rfl | hfront
  · rwa [← List.append_assoc]
  · exact h front hfront

theorem Keeps.trans {first second third : FileTree} (h : Keeps first second)
    (h' : Keeps second third) : Keeps first third :=
  ⟨h'.workingDirectory.trans h.workingDirectory,
    fun _ _ hentry => h'.entries _ _ (h.entries _ _ hentry)⟩

theorem Retains.refl (tree : FileTree) : Retains tree tree :=
  ⟨rfl, fun _ h => h, fun _ h => h⟩

theorem Retains.trans {first second third : FileTree} (h : Retains first second)
    (h' : Retains second third) : Retains first third :=
  ⟨h'.workingDirectory.trans h.workingDirectory,
    fun _ hdirectory => h'.directories _ (h.directories _ hdirectory),
    fun _ hentry => h'.entries _ (h.entries _ hentry)⟩

theorem Retains.origin_eq (h : Retains before after) (path : String) :
    after.origin path = before.origin path := by
  rw [origin, origin, h.workingDirectory]

theorem Keeps.retains (h : Keeps before after) : Retains before after := by
  refine ⟨h.workingDirectory, fun location => h.entries location .directory,
    fun location hsome => ?_⟩
  obtain ⟨entry, hentry⟩ := Option.ne_none_iff_exists'.mp hsome
  rw [h.entries location entry hentry]
  exact Option.some_ne_none entry

/-- An entry that takes the place of no directory leaves all paths leading where they do. -/
theorem retains_put {location : Location} (hroot : location ≠ [])
    (hplace : tree.get? location ≠ some .directory) (entry : Entry) :
    Retains tree (tree.put location entry) := by
  refine ⟨rfl, fun other hdirectory => ?_, fun other hsome => ?_⟩
  · rw [get?_put _ _ _ _ hroot, if_neg, hdirectory]
    rintro rfl
    exact hplace hdirectory
  · rw [get?_put _ _ _ _ hroot]
    split
    · exact Option.some_ne_none entry
    · exact hsome

theorem Keeps.stands (h : Keeps before after) (hstands : before.Stands there names) :
    after.Stands there names :=
  fun front hfront => h.entries _ _ (hstands front hfront)

theorem Grows.keeps {MayStand : Location → Prop} (h : Grows MayStand before after) :
    Keeps before after := by
  refine ⟨h.workingDirectory, fun location entry hentry => ?_⟩
  rcases h.entries location with hsame | ⟨hnone, -⟩
  · rw [hsame, hentry]
  · rw [hnone] at hentry
    contradiction

theorem keeps_put {location : Location} (hnone : tree.get? location = none) (entry : Entry) :
    Keeps tree (tree.put location entry) := by
  have hroot : location ≠ [] := by
    rintro rfl
    contradiction
  refine ⟨rfl, fun other old hold => ?_⟩
  rw [get?_put _ _ _ _ hroot, if_neg, hold]
  rintro rfl
  rw [hnone] at hold
  contradiction

theorem Grows.clear {MayStand : Location → Prop} (h : Grows MayStand before after)
    (hclear : before.Clear there names) : after.Clear there names := by
  intro front hfront
  rcases h.entries (there ++ front) with hsame | ⟨-, hnew, -⟩
  · rw [hsame]
    exact hclear front hfront
  · exact .inr hnew

theorem Grows.mono {MayStand MayStand' : Location → Prop} (h : Grows MayStand before after)
    (hmay : ∀ location, MayStand location → MayStand' location) : Grows MayStand' before after := by
  refine ⟨h.workingDirectory, fun location => ?_⟩
  exact (h.entries location).imp_right fun ⟨hnone, hnew, hstand⟩ => ⟨hnone, hnew, hmay _ hstand⟩

theorem Opened.get?_concat (h : Opened there names before after)
    (hnone : before.get? (there ++ names ++ [last]) = none) :
    after.get? (there ++ names ++ [last]) = none := by
  rcases h.grows.entries (there ++ names ++ [last]) with hsame | ⟨-, -, front, hfront, hlocation⟩
  · rw [hsame, hnone]
  · have hlength := hfront.length_le
    have hequal := congrArg List.length hlocation
    simp only [List.length_append, List.length_singleton] at hequal
    omega

theorem Opened.trans {first second third : FileTree} (h : Opened there names first second)
    (h' : Opened there (names ++ [last]) second third) :
    Opened there (names ++ [last]) first third := by
  refine ⟨Grows.trans (h.grows.mono ?_) h'.grows, h'.stands⟩
  rintro location ⟨front, hfront, hlocation⟩
  exact ⟨front, hfront.trans (List.prefix_append _ _), hlocation⟩

theorem Opened.refl (h : tree.Stands there names) : Opened there names tree tree :=
  ⟨.refl tree, h⟩

/-! ## 2. Following a path without limits -/

def Limits.Unbounded [Limits] : Prop :=
  Limits.name? = none ∧ Limits.path? = none

@[reducible] def Limits.unlimited : Limits :=
  ⟨none, none⟩

variable [Limits]

theorem isLongName_of_unbounded (h : Limits.Unbounded) (name : Name) : isLongName name = false := by
  rw [isLongName, h.1]
  rfl

theorem pathFault?_of_unbounded (h : Limits.Unbounded) {path : String}
    (hnull : '\x00' ∉ path.toList) (hne : path ≠ "") : pathFault? path = none := by
  have hlong : isLongPath path = false := by
    rw [isLongPath, h.2]
    rfl
  unfold pathFault?
  rw [if_neg (by simpa using hnull), if_neg hne, if_neg (by simp [hlong])]

theorem walk_append (tree : FileTree) (location : Location) (left right : List Name) :
    tree.walk location (left ++ right) = (do tree.walk (← tree.walk location left) right) := by
  induction left generalizing location with
  | nil => rfl
  | cons name left ih =>
    rw [List.cons_append, walk, walk]
    cases tree.enter location name with
    | error fault => rfl
    | ok next => exact ih next

theorem walk_append_of_ok {location next : Location} {left : List Name}
    (h : tree.walk location left = .ok next) (right : List Name) :
    tree.walk location (left ++ right) = tree.walk next right := by
  rw [walk_append, h]
  rfl

theorem exists_walk_of_append {location last : Location} {left right : List Name}
    (h : tree.walk location (left ++ right) = .ok last) :
    ∃ next, tree.walk location left = .ok next ∧ tree.walk next right = .ok last := by
  rw [walk_append] at h
  cases hleft : tree.walk location left with
  | error fault =>
    rw [hleft] at h
    contradiction
  | ok next =>
    rw [hleft] at h
    exact ⟨next, rfl, h⟩

theorem walk_of_idle {location : Location} {idle : List Name}
    (h : ∀ name ∈ idle, isIdle name = true) (hthere : tree.get? location = some .directory) :
    tree.walk location idle = .ok location := by
  induction idle with
  | nil => rfl
  | cons name idle ih =>
    obtain ⟨hname, hidle⟩ := List.forall_mem_cons.mp h
    have henter : tree.enter location name = .ok location := by
      rw [enter, isDirectoryAt_iff.mpr hthere, hname]
      rfl
    rw [walk, henter]
    exact ih hidle

theorem walk_of_append_idle {location next : Location} {left idle : List Name}
    (h : tree.walk location (left ++ idle) = .ok next) (hidle : ∀ name ∈ idle, isIdle name = true) :
    tree.walk location left = .ok next := by
  obtain ⟨reached, hleft, hright⟩ := exists_walk_of_append h
  rw [hleft, walk_eq_ok hright, Path.follow_of_idle hidle]

theorem Retains.enter_eq_ok {location next : Location} {name : Name} (h : Retains before after)
    (henter : before.enter location name = .ok next) :
    after.enter location name = .ok next := by
  unfold enter at henter ⊢
  split at henter
  · contradiction
  · rename_i hdirectory
    rw [Bool.not_eq_true', Bool.not_eq_false, isDirectoryAt_iff] at hdirectory
    rw [isDirectoryAt_iff.mpr (h.directories _ hdirectory), Bool.not_true,
      if_neg Bool.false_ne_true]
    split at henter
    · rwa [if_pos ‹_›]
    · rw [if_neg ‹_›]
      split at henter
      · rwa [if_pos ‹_›]
      · rw [if_neg ‹_›]
        split at henter
        · contradiction
        · rw [if_neg ‹_›]
          split at henter
          · contradiction
          · -- a step to an entry does not depend on what kind of entry it is
            rename_i entry hentry
            have hsome : before.get? (location ++ [name]) ≠ none := by simp [hentry]
            obtain ⟨found, hfound⟩ := Option.ne_none_iff_exists'.mp (h.entries _ hsome)
            rwa [hfound]

/-- What is followed in a tree is followed in one that retains its paths. -/
theorem Retains.walk_eq_ok {location next : Location} (h : Retains before after)
    (hwalk : before.walk location names = .ok next) : after.walk location names = .ok next := by
  induction names generalizing location with
  | nil => exact hwalk
  | cons name names ih =>
    obtain ⟨entered, henter, hmore⟩ := exists_enter_of_walk hwalk
    rw [walk, h.enter_eq_ok henter]
    exact ih hmore

/-- Where nothing but directories stands, following names succeeds exactly if they all do. -/
theorem walk_of_clear (hunbounded : Limits.Unbounded) {more : List Name} (habove : above ∉ more)
    (hthere : tree.get? there = some .directory) (hclear : tree.Clear there (kept more)) :
    (tree.Stands there (kept more) ∧ tree.walk there more = .ok (there ++ kept more)) ∨
      (¬tree.Stands there (kept more) ∧ tree.walk there more = .error .missing) := by
  induction more generalizing there with
  | nil => exact .inl ⟨stands_nil hthere, by rw [walk, kept, List.filter_nil, List.append_nil]⟩
  | cons name more ih =>
    have hname : name ≠ above := fun hname => habove (by simp [hname])
    have hmore : above ∉ more := fun hmem => habove (List.mem_cons_of_mem _ hmem)
    by_cases hidle : isIdle name = true
    · have hkept : kept (name :: more) = kept more := by simp [kept, hidle]
      have henter : tree.enter there name = .ok there := by
        rw [enter, isDirectoryAt_iff.mpr hthere, hidle]
        rfl
      rw [hkept] at hclear ⊢
      rw [walk, henter]
      exact ih hmore hthere hclear
    · have hkept := Path.kept_cons_of_name (by simpa using hidle) more
      have hlong := isLongName_of_unbounded hunbounded name
      have hfirst : [name] <+: name :: kept more := ⟨kept more, rfl⟩
      rw [hkept] at hclear ⊢
      rw [walk]
      rcases hclear [name] hfirst with hnone | hdirectory
      · -- the first name that is missing ends the way, whatever stands behind it
        have henter : tree.enter there name = .error .missing := by
          simp [enter, isDirectoryAt_iff.mpr hthere, hidle, hname, hlong, hnone]
        rw [henter]
        refine .inr ⟨fun hstands => ?_, rfl⟩
        have hdirectory := hstands [name] hfirst
        rw [hnone] at hdirectory
        contradiction
      · have henter : tree.enter there name = .ok (there ++ [name]) := by
          simp [enter, isDirectoryAt_iff.mpr hthere, hidle, hname, hlong, hdirectory]
        rw [henter]
        have hrest := ih hmore hdirectory hclear.of_cons
        rw [List.append_assoc, List.singleton_append] at hrest
        rwa [stands_cons_iff hthere]

/-! ## 3. Paths through names that may be missing -/

/-- A path that leads through directories to a location, and then through names that may be missing
to its last one. -/
structure Descends (tree : FileTree) (path : String) (there : Location) (names : List Name)
    (last : Name) : Prop where
  null : '\x00' ∉ path.toList
  exists_split : ∃ known more, segments path = known ++ more ++ [last] ∧
    tree.walk (tree.origin path) known = .ok there ∧ above ∉ more ∧ kept more = names
  reserved : isReserved last = false

variable {path : String}

theorem Keeps.descends (h : Keeps before after)
    (hdescends : before.Descends path there names last) : after.Descends path there names last := by
  obtain ⟨known, more, hsegments, hwalk, hmore⟩ := hdescends.exists_split
  refine ⟨hdescends.null, ⟨known, more, hsegments, ?_, hmore⟩, hdescends.reserved⟩
  rw [origin, h.workingDirectory]
  exact h.retains.walk_eq_ok hwalk

theorem Descends.ne_empty (h : tree.Descends path there names last) : path ≠ "" := by
  obtain ⟨known, more, hsegments, -⟩ := h.exists_split
  rintro rfl
  exact Path.concat_ne_root _ (isReserved_eq_false_iff.mp h.reserved).1 hsegments.symm

/-- The place of a new entry of the path is known as soon as the directories above it stand. -/
theorem resolveParent_of_descends (hunbounded : Limits.Unbounded)
    (h : tree.Descends path there names last) (hthere : tree.get? there = some .directory)
    (hclear : tree.Clear there names) :
    tree.Stands there names ∧ tree.resolveParent path = .ok (there ++ names, last, false) ∨
      ¬tree.Stands there names ∧ tree.resolveParent path = .error .missing := by
  obtain ⟨known, more, hsegments, hwalk, habove, rfl⟩ := h.exists_split
  have hlast : last ≠ [] := by
    rintro rfl
    exact absurd h.reserved (by decide)
  unfold resolveParent
  rw [pathFault?_of_unbounded hunbounded h.null h.ne_empty, splitLast_of_concat hsegments hlast]
  dsimp only
  rw [walk_append_of_ok hwalk]
  rcases walk_of_clear hunbounded habove hthere hclear with ⟨hstands, hreached⟩ | ⟨hmissing, hfault⟩
  · refine .inl ⟨hstands, ?_⟩
    rw [hreached]
    simp only [bind, Except.bind, isDirectoryAt_iff.mpr (hstands _ (List.prefix_refl _)), pure,
      Except.pure, Bool.not_true, if_neg Bool.false_ne_true]
  · refine .inr ⟨hmissing, ?_⟩
    rw [hfault]
    rfl

theorem resolveParent_of_stands (hunbounded : Limits.Unbounded)
    (h : tree.Descends path there names last) (hstands : tree.Stands there names) :
    tree.resolveParent path = .ok (there ++ names, last, false) := by
  have hclear : tree.Clear there names := fun front hfront => .inr (hstands front hfront)
  rcases resolveParent_of_descends hunbounded h hstands.location hclear with
    ⟨-, hparent⟩ | ⟨hnot, -⟩
  · exact hparent
  · exact absurd hstands hnot

/-- A path leads to where its names do if they all stand, and otherwise to nothing. -/
theorem resolve_of_descends (hunbounded : Limits.Unbounded)
    (h : tree.Descends path there names last) (hthere : tree.get? there = some .directory)
    (hclear : tree.Clear there (names ++ [last])) :
    tree.Stands there (names ++ [last]) ∧
        tree.resolve path = .ok (there ++ (names ++ [last])) ∨
      ¬tree.Stands there (names ++ [last]) ∧ tree.resolve path = .error .missing := by
  obtain ⟨known, more, hsegments, hwalk, habove, rfl⟩ := h.exists_split
  obtain ⟨hidle, hlast⟩ := isReserved_eq_false_iff.mp h.reserved
  have hkept : kept (more ++ [last]) = kept more ++ [last] := by simp [kept, hidle]
  have habove : above ∉ more ++ [last] := by simp [habove, Ne.symm hlast]
  rw [resolve, pathFault?_of_unbounded hunbounded h.null h.ne_empty, hsegments, List.append_assoc]
  dsimp only
  rw [walk_append_of_ok hwalk, ← hkept]
  exact walk_of_clear hunbounded habove hthere (hkept ▸ hclear)

/-! ## 4. Making directories -/

theorem makeDirectory_of_stands (hunbounded : Limits.Unbounded)
    (h : tree.Descends path there names last) (hstands : tree.Stands there names) :
    tree.makeDirectory path =
      match tree.get? (there ++ names ++ [last]) with
      | some _ => .error .alreadyExists
      | none => .ok (tree.put (there ++ names ++ [last]) .directory) := by
  unfold makeDirectory
  rw [resolveParent_of_stands hunbounded h hstands]
  simp only [bind, Except.bind, h.reserved, isLongName_of_unbounded hunbounded,
    if_neg Bool.false_ne_true]
  rfl

/-- If the directories above stand, the one of the path is made or there already. -/
theorem makeLast_of_stands (hunbounded : Limits.Unbounded) (h : tree.Descends path there names last)
    (hstands : tree.Stands there names) (hclear : tree.Clear there (names ++ [last])) :
    ∃ after, Opened there (names ++ [last]) tree after ∧
      (tree.makeDirectory path = .ok after ∨
        tree.makeDirectory path = .error .alreadyExists ∧ tree.isDirectory path = true ∧
          after = tree) := by
  have hplace : there ++ (names ++ [last]) = there ++ names ++ [last] := (List.append_assoc ..).symm
  rw [makeDirectory_of_stands hunbounded h hstands]
  rcases hclear (names ++ [last]) (List.prefix_refl _) with hnone | hdirectory
  · rw [hplace] at hnone
    rw [hnone]
    have hgrows : Grows (fun location => ∃ front, front <+: names ++ [last] ∧
        location = there ++ front) tree (tree.put (there ++ names ++ [last]) .directory) :=
      grows_put (by simp) hnone ⟨names ++ [last], List.prefix_refl _, hplace.symm⟩
    -- what stood before still stands, and now the last name does too
    refine ⟨_, ⟨hgrows, stands_concat ?_ ?_⟩, .inl rfl⟩
    · exact hgrows.keeps.stands hstands
    · rw [get?_put _ _ _ _ (by simp), if_pos rfl]
  · rw [hplace] at hdirectory
    have hall := stands_concat hstands hdirectory
    rw [hdirectory]
    refine ⟨tree, .refl hall, .inr ⟨rfl, ?_, rfl⟩⟩
    rcases resolve_of_descends hunbounded h hstands.location hclear with ⟨-, hresolve⟩ | ⟨hnot, -⟩
    · rw [isDirectory, hresolve, hplace]
      exact isDirectoryAt_iff.mpr hdirectory
    · exact absurd hall hnot

/-- A path above another one that is known to lead to a location. -/
theorem resolve_ofSegments (hunbounded : Limits.Unbounded) {front : List Name}
    (hnull : '\x00' ∉ path.toList) (hpath : path ≠ "") (hne : front ≠ [])
    (hfront : front <+: segments path) (hwalk : tree.walk (tree.origin path) front = .ok there) :
    tree.resolve (Path.ofSegments front) = .ok there := by
  by_cases hroot : front = [[]]
  · -- the text of the empty first segment alone is the root, not the empty path
    obtain ⟨rest, hrest⟩ := hfront
    rw [hroot] at hwalk hrest
    have habsolute : Path.isAbsolute path = true :=
      (Path.isAbsolute_iff hpath hrest.symm).mpr rfl
    have hthere : there = [] := by
      rw [walk_eq_ok hwalk, Path.follow_of_idle (by simp [Path.isIdle_nil]), origin, habsolute]
      rfl
    have hidle : ∀ name ∈ segments "/", isIdle name = true := by decide +kernel
    have horigin : tree.origin "/" = [] := by
      rw [origin, if_pos (by decide +kernel)]
    rw [hroot, hthere, show Path.ofSegments [[]] = "/" from rfl, resolve,
      pathFault?_of_unbounded hunbounded (by decide +kernel) (by decide)]
    dsimp only
    rw [horigin]
    exact walk_of_idle hidle rfl
  · obtain ⟨hsegments, hfrontNe, habsolute⟩ := Path.ofSegments_initial hne hroot hfront
    have hfrontNull := Path.not_mem_ofSegments_initial hne hroot hfront (by decide) hnull
    rw [resolve, pathFault?_of_unbounded hunbounded hfrontNull hfrontNe, hsegments, origin,
      habsolute]
    exact hwalk

/-- A path above another one that ends in a name. -/
theorem descends_ofSegments {known front : List Name} {name : Name} (hnull : '\x00' ∉ path.toList)
    (hfront : known ++ front ++ [name] <+: segments path)
    (hwalk : tree.walk (tree.origin path) known = .ok there) (habove : above ∉ front)
    (hreserved : isReserved name = false) :
    tree.Descends (Path.ofSegments (known ++ front ++ [name])) there (kept front) name := by
  have hne : known ++ front ++ [name] ≠ [] := by simp
  have hroot := Path.concat_ne_root (known ++ front) (isReserved_eq_false_iff.mp hreserved).1
  obtain ⟨hsegments, -, habsolute⟩ := Path.ofSegments_initial hne hroot hfront
  refine ⟨Path.not_mem_ofSegments_initial hne hroot hfront (by decide) hnull,
    ⟨known, front, hsegments, ?_, habove, rfl⟩, hreserved⟩
  rwa [origin, habsolute]

/-- The path above one that goes through names is the directory of the last of them. -/
theorem exists_parent (hunbounded : Limits.Unbounded) (h : tree.Descends path there names last)
    (hthere : tree.get? there = some .directory) :
    ∃ parent, Path.parent? path = some parent ∧
      (names = [] ∧ (parent = "" ∨ tree.resolve parent = .ok there) ∨
        ∃ front name, names = front ++ [name] ∧ tree.Descends parent there front name) := by
  obtain ⟨known, more, hsegments, hwalk, habove, rfl⟩ := h.exists_split
  obtain ⟨hidle, -⟩ := isReserved_eq_false_iff.mp h.reserved
  refine ⟨_, Path.parent?_of_last hsegments hidle (by simp), ?_⟩
  by_cases hnone : known ++ more = []
  · rw [if_pos hnone, (List.append_eq_nil_iff.mp hnone).2]
    exact .inl ⟨rfl, .inl rfl⟩
  · rw [if_neg hnone]
    obtain ⟨tail, hdrop, htail⟩ := Path.exists_dropIdle (known ++ more)
    have hfront : Path.dropIdle (known ++ more) <+: segments path := by
      refine ⟨tail ++ [last], ?_⟩
      rw [hsegments, ← List.append_assoc, ← hdrop]
    have hne := Path.dropIdle_ne_nil hnone
    rcases Path.exists_last_of_names more with hall | ⟨front, name, behind, rfl, hname, hbehind⟩
    · -- nothing is left of the way but idle segments: the path above leads to the location itself
      have hreached : tree.walk (tree.origin path) (known ++ more) = .ok there := by
        rw [walk_append_of_ok hwalk, walk_of_idle hall hthere]
      rw [hdrop] at hreached
      exact .inl ⟨Path.kept_of_idle hall, .inr (resolve_ofSegments hunbounded h.null h.ne_empty hne
        hfront (walk_of_append_idle hreached htail))⟩
    · have hupper :
          Path.dropIdle (known ++ (front ++ name :: behind)) = known ++ front ++ [name] := by
        rw [← List.append_assoc, Path.dropIdle_append_cons (known ++ front) hname hbehind]
      rw [hupper] at hfront ⊢
      have hplain : name ≠ above := by
        rintro rfl
        exact habove (by simp)
      have hfrontAbove : above ∉ front := fun hmem => habove (List.mem_append_left _ hmem)
      refine .inr ⟨kept front, name, ?_, descends_ofSegments h.null hfront hwalk hfrontAbove
        (isReserved_eq_false_iff.mpr ⟨hname, hplain⟩)⟩
      rw [Path.kept_append, Path.kept_cons_of_name hname, Path.kept_of_idle hbehind]

/-- Making the directories above a path and the one of the path itself succeeds, and adds no
others. -/
theorem makeEach_of_descends (hunbounded : Limits.Unbounded) {bound : Nat}
    (h : tree.Descends path there names last) (hthere : tree.get? there = some .directory)
    (hclear : tree.Clear there (names ++ [last])) (hbound : names.length < bound) :
    ∃ after, tree.makeEach (Path.ancestorsFrom bound path) = (.ok (), after) ∧
      Opened there (names ++ [last]) tree after := by
  -- each path of the list is the one above the path before it, with one name less to make
  induction bound generalizing path names last with
  | zero => exact absurd hbound (Nat.not_lt_zero _)
  | succ bound ih =>
    obtain ⟨parent, hparent, habove⟩ := exists_parent hunbounded h hthere
    have hfront : tree.Clear there names := hclear.initial (List.prefix_append _ _)
    rw [Path.ancestorsFrom, hparent]
    dsimp only
    rw [makeEach]
    rcases resolveParent_of_descends hunbounded h hthere hfront with ⟨hstands, -⟩ | ⟨hnot, hmissing⟩
    · obtain ⟨after, hopened, hmade | ⟨hexists, hdirectory, rfl⟩⟩ :=
        makeLast_of_stands hunbounded h hstands hclear
      · rw [hmade]
        exact ⟨after, rfl, hopened⟩
      · rw [hexists]
        simp only [hdirectory, and_self, if_true]
        exact ⟨after, rfl, hopened⟩
    · -- the directories above are made first
      have hfails : tree.makeDirectory path = .error .missing := by
        rw [makeDirectory, hmissing]
        rfl
      rw [hfails]
      dsimp only
      rcases habove with ⟨rfl, -⟩ | ⟨front, name, rfl, hdescends⟩
      · exact absurd (stands_nil hthere) hnot
      · obtain ⟨between, hmade, hopened⟩ := ih hdescends hfront (by simp at hbound; omega)
        rw [hmade]
        dsimp only
        obtain ⟨after, hopened', hlast⟩ := makeLast_of_stands hunbounded
          (hopened.grows.keeps.descends h) hopened.stands (hopened.grows.clear hclear)
        refine ⟨after, ?_, hopened.trans hopened'⟩
        rcases hlast with hmade | ⟨hexists, hdirectory, rfl⟩
        · rw [hmade]
        · rw [hexists]
          simp only [hdirectory, and_self, if_true]

theorem writeText_of_stands (hunbounded : Limits.Unbounded)
    (h : tree.Descends path there names last) (hstands : tree.Stands there names)
    (hnone : tree.get? (there ++ names ++ [last]) = none) (content : String) :
    tree.writeText path content =
      .ok (tree.put (there ++ names ++ [last]) (.file content.toUTF8)) := by
  unfold writeText
  rw [resolveParent_of_stands hunbounded h hstands]
  simp only [bind, Except.bind, h.reserved, isLongName_of_unbounded hunbounded, hnone,
    Bool.or_self, if_neg Bool.false_ne_true]
  rfl

end ModuleSurface.FileTree
