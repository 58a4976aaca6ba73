import ModuleSurface.Proofs.Signature.ReadBack

/-!
# Arrangement — the order of parameters and the markers between them

Parameters come in groups by their kinds.  The markers of the written form stand where one group
ends and the next begins, and reading the slots in order gives each group its kinds again
(`exists_reads_slotTexts`).
-/

namespace ModuleSurface.Signature

/-! ## 1. Groups of parameters -/

/-- Parameters in groups: the positional-only ones, the ordinary ones, those from the first star
on, and the one with two stars. -/
structure Arrangement where
  positional : List Parameter
  ordinary : List Parameter
  starred : List Parameter
  closing : List Parameter

namespace Arrangement

def parameters (a : Arrangement) : List Parameter :=
  a.positional ++ a.ordinary ++ a.starred ++ a.closing

/-- Whether the groups hold parameters of their kinds only. -/
structure IsOrdered (a : Arrangement) : Prop where
  positional : ∀ p ∈ a.positional, p.kind = .positionalOnly
  ordinary : ∀ p ∈ a.ordinary, p.kind = .positionalOrKeyword
  starred : ∀ p ∈ a.starred, p.kind = .varPositional ∨ p.kind = .keywordOnly
  closing : ∀ p ∈ a.closing, p.kind = .varKeyword
  closing_length : a.closing.length ≤ 1

/-- Whether a star parameter begins the group of the first star, if there is one at all. -/
def StarFirst (a : Arrangement) : Prop :=
  (∀ p ∈ a.starred, p.kind = .keywordOnly) ∨
    a.starred.head?.map (·.kind) = some .varPositional

instance (a : Arrangement) : Decidable a.IsOrdered :=
  decidable_of_iff
    ((∀ p ∈ a.positional, p.kind = .positionalOnly) ∧
      (∀ p ∈ a.ordinary, p.kind = .positionalOrKeyword) ∧
      (∀ p ∈ a.starred, p.kind = .varPositional ∨ p.kind = .keywordOnly) ∧
      (∀ p ∈ a.closing, p.kind = .varKeyword) ∧ a.closing.length ≤ 1)
    ⟨fun ⟨hpositional, hordinary, hstarred, hclosing, hlength⟩ =>
        ⟨hpositional, hordinary, hstarred, hclosing, hlength⟩,
      fun h => ⟨h.positional, h.ordinary, h.starred, h.closing, h.closing_length⟩⟩

instance (a : Arrangement) : Decidable a.StarFirst :=
  inferInstanceAs (Decidable (_ ∨ _))

end Arrangement

/-! ## 2. Where the markers stand -/

/-- No star is written before a parameter that does not need one. -/
theorem renderSlots_cons {starred : Bool} {p : Parameter}
    (hkeyword : p.kind = .keywordOnly → starred = true) (rest : List Parameter) :
    renderSlots starred (p :: rest) =
      p.render :: markerAfter p rest ++ renderSlots starred rest := by
  have hbefore : markerBefore starred p = [] := by
    rw [markerBefore, if_neg]
    rintro ⟨hkind, hfalse⟩
    rw [hkeyword hkind] at hfalse
    exact absurd hfalse (by decide)
  -- a keyword-only parameter raises the flag, but only where it is up already
  have hstarred : (starred || p.kind == .keywordOnly) = starred := by
    cases hcase : starred with
    | true => rfl
    | false =>
      simp only [Bool.false_or, beq_eq_false_iff_ne]
      intro hkind
      rw [hkeyword hkind] at hcase
      exact absurd hcase (by decide)
  rw [renderSlots, hbefore, hstarred, List.nil_append]

theorem renderSlots_unmarked {starred : Bool} {front : List Parameter}
    (h : ∀ p ∈ front, p.kind ≠ .positionalOnly ∧ (p.kind = .keywordOnly → starred = true))
    (rest : List Parameter) :
    renderSlots starred (front ++ rest) =
      front.map (·.render) ++ renderSlots starred rest := by
  induction front with
  | nil => rfl
  | cons p front ih =>
    obtain ⟨⟨hpositional, hkeyword⟩, hfront⟩ := List.forall_mem_cons.mp h
    have hafter : markerAfter p (front ++ rest) = [] := by
      rw [markerAfter, if_neg]
      exact fun hcond => hpositional hcond.1
    rw [List.cons_append, renderSlots_cons hkeyword, hafter, ih hfront]
    simp

/-- A slash stands behind the positional-only parameters. -/
theorem renderSlots_positional (starred : Bool) {front rest : List Parameter} (hne : front ≠ [])
    (hfront : ∀ p ∈ front, p.kind = .positionalOnly)
    (hrest : ∀ p ∈ rest.head?, p.kind ≠ .positionalOnly) :
    renderSlots starred (front ++ rest) =
      front.map (·.render) ++ "/" :: renderSlots starred rest := by
  induction front with
  | nil => exact absurd rfl hne
  | cons p front ih =>
    have hkind := hfront p (by simp)
    have hkeyword : p.kind = .keywordOnly → starred = true := by
      rw [hkind]
      exact fun h => absurd h (by decide)
    rw [List.cons_append, renderSlots_cons hkeyword]
    -- the slash waits for the last parameter of the run
    cases front with
    | nil =>
      have hafter : markerAfter p ([] ++ rest) = ["/"] := by
        rw [markerAfter, if_pos]
        refine ⟨hkind, ?_⟩
        rw [List.nil_append, ne_eq, Option.map_eq_some_iff, not_exists]
        rintro q ⟨hq, hqkind⟩
        exact hrest q hq hqkind
      rw [hafter]
      rfl
    | cons q front =>
      have hafter : markerAfter p (q :: front ++ rest) = [] := by
        simp [markerAfter, hfront q (by simp)]
      rw [hafter, ih (by simp) fun q hq => hfront q (List.mem_cons_of_mem _ hq)]
      rfl

/-- A star stands before the first keyword-only parameter that no star comes before. -/
theorem renderSlots_keywordOnly {p : Parameter} (hkind : p.kind = .keywordOnly)
    (rest : List Parameter) :
    renderSlots false (p :: rest) = "*" :: renderSlots true (p :: rest) := by
  simp [renderSlots, markerBefore, hkind]

/-! ## 3. Reading the slots of a group -/

theorem reads_plain {r : Reading} (hclosed : r.closed = false) {parameters : List Parameter}
    (hplain : ∀ p ∈ parameters, p.kind.isVariadic = false)
    (hwritten : ∀ p ∈ parameters, p.IsWritten) (hclear : ∀ p ∈ parameters, p.IsClear) :
    r.Reads (parameters.map (·.render.toList))
      { r with
        parameters := r.parameters ++
          parameters.map ({ · with kind := plainKind r.keywordOnly }) } := by
  induction parameters generalizing r with
  | nil => simp [Reading.Reads]
  | cons p parameters ih =>
    rw [List.forall_mem_cons] at hplain hwritten hclear
    obtain ⟨hkind, hplain⟩ := hplain
    obtain ⟨hp, hwritten⟩ := hwritten
    obtain ⟨hpclear, hclear⟩ := hclear
    -- a plain slot does not tell its kind, so that the state has to
    have hslot : p.slot = .plain p.parts.text := by
      rw [Parameter.slot]
      cases h : p.kind <;> first | rfl | (rw [h] at hkind; exact absurd hkind (by decide))
    rw [List.map_cons, Reading.Reads, hpclear.ofText_render hp, hslot]
    refine ⟨_, ⟨hclosed, _, hp.readParameter_partsText _, rfl⟩, ?_⟩
    have hrest := @ih { r with
        parameters := r.parameters ++ [{ p with kind := plainKind r.keywordOnly }] } hclosed
      hplain hwritten hclear
    rw [List.append_assoc] at hrest
    exact hrest

/-- Behind the first star every parameter keeps its kind. -/
theorem reads_starred {r : Reading} (hclosed : r.closed = false) (hstar : r.keywordOnly = true)
    {parameters : List Parameter}
    (hkinds : ∀ p ∈ parameters, p.kind = .varPositional ∨ p.kind = .keywordOnly)
    (hwritten : ∀ p ∈ parameters, p.IsWritten) (hclear : ∀ p ∈ parameters, p.IsClear) :
    r.Reads (parameters.map (·.render.toList))
      { r with parameters := r.parameters ++ parameters } := by
  -- the state changes in its parameters alone, and so stays one behind a star
  induction parameters generalizing r with
  | nil => simp [Reading.Reads]
  | cons p parameters ih =>
    rw [List.forall_mem_cons] at hkinds hwritten hclear
    obtain ⟨hkind, hkinds⟩ := hkinds
    obtain ⟨hp, hwritten⟩ := hwritten
    obtain ⟨hpclear, hclear⟩ := hclear
    rw [List.map_cons, Reading.Reads, hpclear.ofText_render hp]
    have hnext : r.Next p.slot { r with parameters := r.parameters ++ [p] } := by
      rcases hkind with hkind | hkind <;> rw [Parameter.slot, hkind]
      · refine ⟨hclosed, p, ?_, by rw [← hstar]⟩
        rw [hp.readParameter_partsText, ← hkind]
      · refine ⟨hclosed, p, ?_, rfl⟩
        rw [hp.readParameter_partsText, hstar, plainKind, if_pos rfl, ← hkind]
    refine ⟨_, hnext, ?_⟩
    have hrest := @ih { r with parameters := r.parameters ++ [p] } hclosed hstar hkinds hwritten
      hclear
    rw [List.append_assoc] at hrest
    exact hrest

/-! ## 4. Reading all slots -/

theorem Parameter.with_kind_self {p : Parameter} {kind : ParameterKind} (h : p.kind = kind) :
    { p with kind } = p := by
  rw [← h]

namespace Arrangement

/-- Some slots, written before those of the last group, are read to the group of the first star. -/
def StarredRead (a : Arrangement) (r : Reading) : Prop :=
  ∃ slots next,
    renderSlots (hasKind a.parameters .varPositional) (a.starred ++ a.closing) =
      slots ++ a.closing.map (·.render) ∧
    r.Reads (slots.map String.toList) next ∧
    next.parameters = r.parameters ++ a.starred ∧ next.closed = false

variable {a : Arrangement} (ha : a.IsOrdered) (hwritten : ∀ p ∈ a.parameters, p.IsWritten)
  (hclear : ∀ p ∈ a.parameters, p.IsClear)

include ha

theorem IsOrdered.plain_of_mem {p : Parameter} (hp : p ∈ a.positional ++ a.ordinary) :
    p.kind = .positionalOnly ∨ p.kind = .positionalOrKeyword := by
  rcases List.mem_append.mp hp with hp | hp
  · exact .inl (ha.positional p hp)
  · exact .inr (ha.ordinary p hp)

/-- A star parameter stands in the group of the first star. -/
theorem IsOrdered.mem_starred {p : Parameter} (hp : p ∈ a.parameters)
    (hkind : p.kind = .varPositional) : p ∈ a.starred := by
  unfold Arrangement.parameters at hp
  rcases List.mem_append.mp hp with hp | hp
  · apply (List.mem_append.mp hp).resolve_left
    intro hplain
    rcases ha.plain_of_mem hplain with h | h <;> rw [hkind] at h <;> exact absurd h (by decide)
  · have h := ha.closing p hp
    rw [hkind] at h
    exact absurd h (by decide)

theorem IsOrdered.hasKind_iff :
    hasKind a.parameters .varPositional = true ↔ ∃ p ∈ a.starred, p.kind = .varPositional := by
  simp only [hasKind, List.any_eq_true, beq_iff_eq]
  constructor
  · rintro ⟨p, hp, hkind⟩
    exact ⟨p, ha.mem_starred hp hkind, hkind⟩
  · rintro ⟨p, hp, hkind⟩
    exact ⟨p, by simp [Arrangement.parameters, hp], hkind⟩

theorem IsOrdered.kind_ne_of_mem_tail {p : Parameter}
    (hp : p ∈ a.ordinary ++ (a.starred ++ a.closing)) : p.kind ≠ .positionalOnly := by
  rcases List.mem_append.mp hp with hp | hp
  · rw [ha.ordinary p hp]
    decide
  rcases List.mem_append.mp hp with hp | hp
  · rcases ha.starred p hp with h | h <;> rw [h] <;> decide
  · rw [ha.closing p hp]
    decide

theorem IsOrdered.renderSlots_closing (flag : Bool) :
    renderSlots flag a.closing = a.closing.map (·.render) := by
  have hunmarked : ∀ p ∈ a.closing,
      p.kind ≠ .positionalOnly ∧ (p.kind = .keywordOnly → flag = true) := by
    intro p hp
    rw [ha.closing p hp]
    exact ⟨by decide, fun h => absurd h (by decide)⟩
  have h := renderSlots_unmarked hunmarked []
  rwa [List.append_nil, renderSlots, List.append_nil] at h

/-- Where a star stands before it, the group of the first star is written without markers. -/
theorem IsOrdered.renderSlots_starred :
    renderSlots true (a.starred ++ a.closing) =
      a.starred.map (·.render) ++ a.closing.map (·.render) := by
  rw [renderSlots_unmarked, ha.renderSlots_closing]
  intro p hp
  refine ⟨?_, fun _ => rfl⟩
  rcases ha.starred p hp with h | h <;> rw [h] <;> decide

include hwritten hclear

theorem IsOrdered.exists_reads_positional (flag : Bool) :
    ∃ slots next,
      renderSlots flag a.parameters =
        slots ++ renderSlots flag (a.ordinary ++ (a.starred ++ a.closing)) ∧
      Reading.start.Reads (slots.map String.toList) next ∧
      next.parameters = a.positional ∧ next.keywordOnly = false ∧ next.closed = false := by
  have hparameters :
      a.parameters = a.positional ++ (a.ordinary ++ (a.starred ++ a.closing)) := by
    rw [Arrangement.parameters, List.append_assoc, List.append_assoc]
  rw [hparameters] at hwritten hclear ⊢
  by_cases hne : a.positional = []
  · rw [hne]
    exact ⟨[], .start, rfl, rfl, rfl, rfl, rfl⟩
  · have hrest : ∀ p ∈ (a.ordinary ++ (a.starred ++ a.closing)).head?,
        p.kind ≠ .positionalOnly :=
      fun p hp => ha.kind_ne_of_mem_tail (List.mem_of_mem_head? hp)
    have hplain : ∀ p ∈ a.positional, p.kind.isVariadic = false := by
      intro p hp
      rw [ha.positional p hp]
      rfl
    have hreads := reads_plain (r := .start) rfl hplain
      (fun p hp => hwritten p (List.mem_append_left _ hp))
      (fun p hp => hclear p (List.mem_append_left _ hp))
    -- the slash gives the parameters the kind that they had
    have hback : (a.positional.map ({ · with kind := plainKind false })).map
        ({ · with kind := .positionalOnly }) = a.positional := by
      rw [List.map_map]
      refine (List.map_congr_left ?_).trans (List.map_id' _)
      exact fun p hp => Parameter.with_kind_self (ha.positional p hp)
    refine ⟨a.positional.map (·.render) ++ ["/"], ⟨a.positional, false, true, false⟩, ?_, ?_,
      rfl, rfl, rfl⟩
    · rw [renderSlots_positional flag hne ha.positional hrest]
      simp
    · rw [List.map_append, List.map_map, Reading.reads_append_iff]
      refine ⟨_, hreads, _, ⟨rfl, rfl, rfl, by simpa [Reading.start] using hne, rfl⟩, ?_⟩
      rw [Reading.start, List.nil_append, hback]
      rfl

theorem IsOrdered.reads_ordinary {r : Reading} (hclosed : r.closed = false)
    (hstar : r.keywordOnly = false) :
    r.Reads (a.ordinary.map (·.render.toList))
      { r with parameters := r.parameters ++ a.ordinary } := by
  have hplain : ∀ p ∈ a.ordinary, p.kind.isVariadic = false := by
    intro p hp
    rw [ha.ordinary p hp]
    rfl
  have hreads := reads_plain hclosed hplain
    (fun p hp => hwritten p (by simp [Arrangement.parameters, hp]))
    (fun p hp => hclear p (by simp [Arrangement.parameters, hp]))
  have hsame : a.ordinary.map ({ · with kind := plainKind r.keywordOnly }) = a.ordinary := by
    rw [hstar]
    refine (List.map_congr_left ?_).trans (List.map_id' _)
    exact fun p hp => Parameter.with_kind_self (ha.ordinary p hp)
  rwa [hsame] at hreads

/-- Without a star parameter, a lone star is written if there is anything to write behind it. -/
theorem IsOrdered.starredRead_of_keywordOnly (hall : ∀ p ∈ a.starred, p.kind = .keywordOnly)
    {r : Reading} (hclosed : r.closed = false) : a.StarredRead r := by
  have hflag : hasKind a.parameters .varPositional = false := by
    rw [← Bool.not_eq_true, ha.hasKind_iff]
    rintro ⟨p, hp, hkind⟩
    rw [hall p hp] at hkind
    exact absurd hkind (by decide)
  rw [StarredRead, hflag]
  by_cases hnil : a.starred = []
  · -- nothing to write behind a star, hence no star
    rw [hnil, List.append_nil]
    exact ⟨[], r, ha.renderSlots_closing false, rfl, rfl, hclosed⟩
  · obtain ⟨p, others, hcons⟩ := List.exists_cons_of_ne_nil hnil
    have hstar : renderSlots false (a.starred ++ a.closing) =
        "*" :: renderSlots true (a.starred ++ a.closing) := by
      rw [hcons]
      exact renderSlots_keywordOnly (hall p (by simp [hcons])) _
    refine ⟨"*" :: a.starred.map (·.render),
      ⟨r.parameters ++ a.starred, true, r.slashed, r.closed⟩, ?_, ?_, rfl, hclosed⟩
    · rw [hstar, ha.renderSlots_starred]
      rfl
    · rw [List.map_cons, List.map_map]
      exact ⟨_, ⟨hclosed, rfl⟩,
        reads_starred (r := { r with keywordOnly := true }) hclosed rfl ha.starred
          (fun q hq => hwritten q (by simp [Arrangement.parameters, hq]))
          (fun q hq => hclear q (by simp [Arrangement.parameters, hq]))⟩

/-- A star parameter that comes first stands for the lone star that is not written. -/
theorem IsOrdered.starredRead_of_head
    (hhead : a.starred.head?.map (·.kind) = some .varPositional) {r : Reading}
    (hclosed : r.closed = false) : a.StarredRead r := by
  have hwritten' : ∀ p ∈ a.starred, p.IsWritten :=
    fun p hp => hwritten p (by simp [Arrangement.parameters, hp])
  have hclear' : ∀ p ∈ a.starred, p.IsClear :=
    fun p hp => hclear p (by simp [Arrangement.parameters, hp])
  obtain ⟨p, hfront, hp⟩ := Option.map_eq_some_iff.mp hhead
  obtain ⟨others, hcons⟩ := List.head?_eq_some_iff.mp hfront
  have hmem : p ∈ a.starred := by simp [hcons]
  have hp' := hwritten' p hmem
  rw [StarredRead, ha.hasKind_iff.mpr ⟨p, hmem, hp⟩, ha.renderSlots_starred]
  refine ⟨a.starred.map (·.render), ⟨r.parameters ++ a.starred, true, r.slashed, r.closed⟩, rfl,
    ?_, rfl, hclosed⟩
  have hslot : p.slot = .varPositional p.parts.text := by
    rw [Parameter.slot, hp]
  have hread : readParameter .varPositional p.parts.text = some p := by
    rw [hp'.readParameter_partsText, Parameter.with_kind_self hp]
  -- the first slot turns to keyword-only parameters, and only then the others can be read
  have hnext : r.Next (.ofText p.render.toList)
      ⟨r.parameters ++ [p], true, r.slashed, r.closed⟩ := by
    rw [(hclear' p hmem).ofText_render hp', hslot]
    exact ⟨hclosed, p, hread, rfl⟩
  have hsub : ∀ q ∈ others, q ∈ a.starred := by
    intro q hq
    rw [hcons]
    exact List.mem_cons_of_mem _ hq
  have hothers := reads_starred (r := ⟨r.parameters ++ [p], true, r.slashed, r.closed⟩) hclosed
    rfl (fun q hq => ha.starred q (hsub q hq)) (fun q hq => hwritten' q (hsub q hq))
    (fun q hq => hclear' q (hsub q hq))
  rw [List.append_assoc] at hothers
  rw [List.map_map, hcons, List.map_cons]
  exact ⟨_, hnext, hothers⟩

theorem IsOrdered.starredRead (hfirst : a.StarFirst) {r : Reading} (hclosed : r.closed = false) :
    a.StarredRead r := by
  rcases hfirst with hall | hhead
  · exact ha.starredRead_of_keywordOnly hwritten hclear hall hclosed
  · exact ha.starredRead_of_head hwritten hclear hhead hclosed

theorem IsOrdered.exists_reads_closing {r : Reading} (hclosed : r.closed = false) :
    ∃ last, r.Reads (a.closing.map (·.render.toList)) last ∧
      last.parameters = r.parameters ++ a.closing := by
  -- behind two stars nothing more can be read, so that there is one parameter at most
  have hlength := ha.closing_length
  cases hcase : a.closing with
  | nil => exact ⟨r, rfl, by rw [List.append_nil]⟩
  | cons p more =>
    rw [hcase, List.length_cons] at hlength
    have hmore : more = [] := List.eq_nil_of_length_eq_zero (by omega)
    subst hmore
    have hmem : p ∈ a.parameters := by simp [Arrangement.parameters, hcase]
    have hkind : p.kind = .varKeyword := ha.closing p (by simp [hcase])
    have hp := hwritten p hmem
    have hread : readParameter .varKeyword p.parts.text = some p := by
      rw [hp.readParameter_partsText, Parameter.with_kind_self hkind]
    refine ⟨⟨r.parameters ++ [p], r.keywordOnly, r.slashed, true⟩, ⟨_, ?_, rfl⟩, rfl⟩
    rw [(hclear p hmem).ofText_render hp, Parameter.slot, hkind]
    exact ⟨hclosed, p, hread, rfl⟩

/-- Reading the slots of parameters that are in groups gives the parameters. -/
theorem IsOrdered.exists_reads_slotTexts (hfirst : a.StarFirst) :
    ∃ last, Reading.start.Reads (slotTexts a.parameters) last ∧
      a.parameters = last.parameters := by
  -- group after group, each from the state that the one before it leaves
  obtain ⟨front, r, hfront, hreads, hr, hstar, hclosed⟩ :=
    ha.exists_reads_positional hwritten hclear (hasKind a.parameters .varPositional)
  have hordinary := ha.reads_ordinary hwritten hclear hclosed hstar
  obtain ⟨middle, next, hmiddle, hnext, hparameters, hopen⟩ :=
    ha.starredRead hwritten hclear hfirst
      (r := { r with parameters := r.parameters ++ a.ordinary }) hclosed
  obtain ⟨last, hlast, hall⟩ := ha.exists_reads_closing hwritten hclear hopen
  have hunmarked : ∀ p ∈ a.ordinary, p.kind ≠ .positionalOnly ∧
      (p.kind = .keywordOnly → hasKind a.parameters .varPositional = true) := by
    intro p hp
    rw [ha.ordinary p hp]
    exact ⟨by decide, fun h => absurd h (by decide)⟩
  refine ⟨last, ?_, ?_⟩
  · rw [slotTexts, hfront, renderSlots_unmarked hunmarked, hmiddle]
    simp only [List.map_append, List.map_map, Reading.reads_append_iff]
    exact ⟨r, hreads, _, hordinary, next, hnext, hlast⟩
  · rw [hall, hparameters, hr, Arrangement.parameters]

end Arrangement

end ModuleSurface.Signature
