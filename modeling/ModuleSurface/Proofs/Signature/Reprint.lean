import ModuleSurface.Proofs.Signature.Accepted
import ModuleSurface.Proofs.Signature.RoundTrip

/-!
# Reprint — which accepted signatures are read back from their written form

Three shapes are lost in writing: a keyword-only parameter before the first star parameter, since
no lone star is written when there is a star parameter; a star parameter whose name begins with a
star; and a parameter that is written as a slash.  All other accepted signatures are read back
(`parse_render_iff_of_parse`).
-/

namespace ModuleSurface.Signature

open Text (trim)

/-! ## 1. Shapes that are lost -/

/-- A keyword-only parameter comes before the first star parameter. -/
def StarLate (s : Signature) : Prop :=
  ∃ front p back, s.parameters = front ++ p :: back ∧ p.kind = .varPositional ∧
    (∀ q ∈ front, q.kind ≠ .varPositional) ∧ ∃ q ∈ front, q.kind = .keywordOnly

/-- A star parameter has a name that begins with a star. -/
def StarNamed (s : Signature) : Prop :=
  ∃ p ∈ s.parameters, p.kind = .varPositional ∧ ['*'] <+: p.name.toList

/-- A parameter without stars is written as a slash. -/
def SlashNamed (s : Signature) : Prop :=
  ∃ p ∈ s.parameters,
    (p.kind = .positionalOnly ∨ p.kind = .positionalOrKeyword ∨ p.kind = .keywordOnly) ∧
      p.name = "/" ∧ p.annotation = none ∧ p.default = none

theorem starFirst_of_not_starLate {s : Signature} {a : Arrangement} (ha : a.IsOrdered)
    (hparameters : a.parameters = s.parameters) (h : ¬ s.StarLate) : a.StarFirst := by
  cases hfind : a.starred.find? (·.kind == .varPositional) with
  | none =>
    refine .inl fun q hq => (ha.starred q hq).resolve_left ?_
    simpa using List.find?_eq_none.mp hfind q hq
  | some p =>
    obtain ⟨hp, front, back, hsplit, hfront⟩ := List.find?_eq_some_iff_append.mp hfind
    simp only [beq_iff_eq] at hp
    cases front with
    | nil => exact .inr (by simp [hsplit, hp])
    | cons q front =>
      -- the first of the group is a keyword-only parameter, and a star comes behind it
      have hkeyword : q.kind = .keywordOnly := by
        refine (ha.starred q (by simp [hsplit])).resolve_left ?_
        simpa using hfront q (by simp)
      refine absurd ?_ h
      refine ⟨a.positional ++ a.ordinary ++ q :: front, p, back ++ a.closing, ?_, hp, ?_, q,
        by simp, hkeyword⟩
      · rw [← hparameters, Arrangement.parameters, hsplit]
        simp
      · intro other hother
        rcases List.mem_append.mp hother with hother | hother
        · rcases ha.plain_of_mem hother with h | h <;> rw [h] <;> decide
        · simpa using hfront other hother

theorem not_starLate_of_starFirst {s : Signature} {a : Arrangement} (ha : a.IsOrdered)
    (hparameters : a.parameters = s.parameters) (h : a.StarFirst) : ¬ s.StarLate := by
  rintro ⟨front, p, back, hsplit, hp, hfront, q, hq, hkeyword⟩
  have hmem : p ∈ a.parameters := by
    rw [hparameters, hsplit]
    simp
  obtain ⟨v, hv, hvkind⟩ : ∃ v, a.starred.head? = some v ∧ v.kind = .varPositional := by
    rcases h with hall | hhead
    · rw [hall p (ha.mem_starred hmem hp)] at hp
      exact absurd hp (by decide)
    · exact Option.map_eq_some_iff.mp hhead
  obtain ⟨others, hstarred⟩ := List.head?_eq_some_iff.mp hv
  have hplain : ∀ other ∈ a.positional ++ a.ordinary, other.kind ≠ .keywordOnly := by
    intro other hother
    rcases ha.plain_of_mem hother with h | h <;> rw [h] <;> decide
  rw [← hparameters, Arrangement.parameters, hstarred, List.append_assoc,
    List.cons_append] at hsplit
  -- what comes before reaches into the group, and so has a star parameter, or it is plain
  rcases List.append_eq_append_iff.mp hsplit with ⟨more, rfl, hmore⟩ | ⟨more, hmore, -⟩
  · cases more with
    | nil => exact hplain q (by simpa using hq) hkeyword
    | cons first more =>
      rw [List.cons_append, List.cons.injEq] at hmore
      exact hfront v (by simp [hmore.1]) hvkind
  · refine hplain q ?_ hkeyword
    rw [hmore]
    exact List.mem_append_left _ hq

/-! ## 2. The slots that are written -/

theorem parameterSlots_renderSlots (starred : Bool) (parameters : List Parameter) :
    parameterSlots ((renderSlots starred parameters).map String.toList) =
      parameterSlots (parameters.map (·.render.toList)) := by
  induction parameters generalizing starred with
  | nil => rfl
  | cons p rest ih =>
    -- the markers are the slots that are left out, wherever they stand
    have hbefore : parameterSlots ((markerBefore starred p).map String.toList) = [] := by
      rw [markerBefore]
      split <;> rfl
    have hafter : parameterSlots ((markerAfter p rest).map String.toList) = [] := by
      rw [markerAfter]
      split <;> rfl
    have happend := parameterSlots_append [p.render.toList] (rest.map (·.render.toList))
    rw [renderSlots, List.append_cons]
    simp only [List.map_append, parameterSlots_append, hbefore, hafter, ih, List.map_cons,
      List.map_nil, List.nil_append, List.append_nil]
    rw [← happend]
    rfl

/-- A star that is written beside a star parameter is a parameter. -/
theorem exists_render_eq_star {parameters : List Parameter}
    (h : "*" ∈ renderSlots true parameters) : ∃ p ∈ parameters, p.render = "*" := by
  induction parameters with
  | nil => exact absurd h (by simp [renderSlots])
  | cons p rest ih =>
    rw [renderSlots_cons fun _ => rfl, List.cons_append, List.mem_cons, List.mem_append] at h
    rcases h with h | h | h
    · exact ⟨p, by simp, h.symm⟩
    · rw [markerAfter] at h
      split at h
      · exact absurd h (by decide)
      · exact absurd h (by simp)
    · obtain ⟨q, hq, hrender⟩ := ih h
      exact ⟨q, List.mem_cons_of_mem _ hq, hrender⟩

/-- Where a signature is read back, each parameter is given by its own written form. -/
theorem gives_render {s : Signature} {last : Reading}
    (hreads : Reading.start.Reads (slotTexts s.parameters) last)
    (hlast : s.parameters = last.parameters) :
    ∀ p ∈ s.parameters,
      p.render.toList ≠ ['/'] ∧ p.render.toList ≠ ['*'] ∧ Gives p.render.toList p := by
  have hgives := (Reading.accounts_start.run hreads).gives
  rw [List.nil_append, slotTexts, parameterSlots_renderSlots, ← hlast] at hgives
  -- as many slots as parameters are left when the markers are taken out
  have hlength := hgives.length_eq
  rw [← s.parameters.length_map (·.render.toList), parameterSlots,
    List.length_filter_eq_length_iff] at hlength
  rw [parameterSlots, List.filter_eq_self.mpr hlength, List.forall₂_map_left_iff,
    List.forall₂_same] at hgives
  intro p hp
  have hmarker := hlength p.render.toList (List.mem_map_of_mem hp)
  simp only [decide_eq_true_eq] at hmarker
  exact ⟨hmarker.1, hmarker.2, hgives p hp⟩

/-! ## 3. Reading an accepted signature back -/

theorem Accepted.wellFormed {s : Signature} (h : s.Accepted) (hlate : ¬ s.StarLate)
    (hstar : ¬ s.StarNamed) (hslash : ¬ s.SlashNamed) : s.WellFormed := by
  obtain ⟨a, hparameters, hordered⟩ := h.exists_arrangement
  refine ⟨⟨a, hparameters, hordered, starFirst_of_not_starLate hordered hparameters hlate⟩,
    h.isWritten, ?_, h.returns⟩
  intro p hp
  refine ⟨?_, ?_⟩
  · intro hkind hname
    cases hcase : p.kind with
    | varKeyword => exact hkind hcase
    | varPositional => exact hstar ⟨p, hp, hcase, hname⟩
    | _ => exact h.not_star_name hp (by rw [hcase]; rfl) hname
  · intro hkind hlooks
    cases hcase : p.kind with
    | varKeyword => exact absurd hkind (by rw [hcase]; decide)
    | varPositional => exact absurd hkind (by rw [hcase]; decide)
    | _ => exact hslash ⟨p, hp, by simp [hcase], hlooks⟩

theorem not_starLate_of_reads {s : Signature} {last : Reading}
    (hreads : Reading.start.Reads (slotTexts s.parameters) last)
    (hlast : s.parameters = last.parameters) : ¬ s.StarLate := by
  intro hlate
  obtain ⟨front, p, back, hsplit, hp, -⟩ := id hlate
  have hkind : hasKind s.parameters .varPositional = true :=
    List.any_eq_true.mpr ⟨p, by simp [hsplit], by simp [hp]⟩
  -- beside a star parameter no lone star is written, and no parameter is given by one
  have hnone : ['*'] ∉ slotTexts s.parameters := by
    intro hmem
    rw [slotTexts, hkind] at hmem
    obtain ⟨text, htext, hchars⟩ := List.mem_map.mp hmem
    have hstar : text = "*" := String.toList_inj.mp hchars
    rw [hstar] at htext
    obtain ⟨q, hq, hrender⟩ := exists_render_eq_star htext
    exact (gives_render hreads hlast q hq).2.1 (by rw [hrender]; rfl)
  obtain ⟨a, ha⟩ := (Reading.accounts_start.run hreads).arranged
  exact not_starLate_of_starFirst ha.ordered (ha.parameters.trans hlast.symm)
    (ha.starFirst hnone) hlate

theorem not_starNamed_of_reads {s : Signature} {last : Reading}
    (hwritten : ∀ p ∈ s.parameters, p.IsWritten)
    (hreads : Reading.start.Reads (slotTexts s.parameters) last)
    (hlast : s.parameters = last.parameters) : ¬ s.StarNamed := by
  rintro ⟨p, hp, hkind, hname⟩
  obtain ⟨-, -, hgives⟩ := gives_render hreads hlast p hp
  rw [← Parameter.star_prefix_partsText_iff (hwritten p hp).name.ne_nil] at hname
  obtain ⟨rest, hrest⟩ := hname
  have hrender : p.render.toList = '*' :: '*' :: rest := by
    rw [Parameter.toList_render, ← hrest, hkind]
    rfl
  -- both stars are taken off, but the kind puts back only one of them
  have hlength := congrArg List.length hgives.stars
  rw [hrender, hkind] at hlength
  simp [ParameterKind.stars, afterStars] at hlength

theorem not_slashNamed_of_reads {s : Signature} {last : Reading}
    (hwritten : ∀ p ∈ s.parameters, p.IsWritten)
    (hreads : Reading.start.Reads (slotTexts s.parameters) last)
    (hlast : s.parameters = last.parameters) : ¬ s.SlashNamed := by
  rintro ⟨p, hp, hkind, hlooks⟩
  refine (gives_render hreads hlast p hp).1 ?_
  rw [Parameter.toList_render,
    (Parameter.partsText_eq_slash_iff (hwritten p hp).name.ne_nil).mpr hlooks]
  rcases hkind with h | h | h <;> rw [h] <;> rfl

/-- An accepted signature is read back from its written form unless it has one of the shapes that
are lost. -/
theorem parse_render_iff_of_parse (text : String) (s : Signature) (h : parse text = .ok s) :
    parse s.render = .ok s ↔ ¬ (s.StarLate ∨ s.StarNamed ∨ s.SlashNamed) := by
  have haccepted := accepted_of_parse h
  have hwritten := haccepted.isWritten
  rw [parse_render_iff hwritten haccepted.returns, not_or, not_or]
  constructor
  · rintro ⟨-, last, hreads, hlast⟩
    exact ⟨not_starLate_of_reads hreads hlast, not_starNamed_of_reads hwritten hreads hlast,
      not_slashNamed_of_reads hwritten hreads hlast⟩
  · rintro ⟨hlate, hstar, hslash⟩
    exact ⟨rfl, (haccepted.wellFormed hlate hstar hslash).exists_reads⟩

/-- A keyword-only parameter before a star parameter, as a lone star before both makes it. -/
def lateSample : Signature where
  parameters := [⟨"a", .keywordOnly, none, none⟩, ⟨"args", .varPositional, none, none⟩]
  returns := none

theorem parse_render_lateSample :
    parse "(*, a, *args)" = .ok lateSample ∧ lateSample.render = "(a, *args)" ∧
      parse lateSample.render ≠ .ok lateSample := by
  have hparse : parse "(*, a, *args)" = .ok lateSample := by rfl
  have hlate : lateSample.StarLate :=
    ⟨[⟨"a", .keywordOnly, none, none⟩], _, [], rfl, rfl, by decide, by decide⟩
  refine ⟨hparse, by decide, fun h => ?_⟩
  exact (parse_render_iff_of_parse "(*, a, *args)" lateSample hparse).mp h (.inl hlate)

end ModuleSurface.Signature
