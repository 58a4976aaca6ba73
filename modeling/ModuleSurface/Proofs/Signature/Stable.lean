import ModuleSurface.Proofs.Signature.Places
import ModuleSurface.Proofs.Signature.Reprint

/-!
# Stable — writing once more what is read from a written signature

What is read from the written form of a signature may be another signature (see `Reprint`), or
nothing at all.  If it is a signature, then it is written as the first one was: each slot of a
parameter is written again (`render_of_gives_render`), and the markers stand where they stood
(`map_renderSlots_of_places`).  Only a star parameter whose name is a star and a blank loses the
blank.
-/

namespace ModuleSurface

open Signature (Nested OnTop Parts Gives afterStars readParameter nested_cons_iff onTop_cons_iff
  not_onTop_nil afterStars_plain afterStars_star readParameter_text)
open Text (trim isBlank trim_eq_self_iff)

namespace Parameter

/-! ## 1. Writing one parameter again -/

/-- Whether the name of a star parameter is a star with blanks behind it. -/
def HasSpacedStar (p : Parameter) : Prop :=
  p.kind = .varPositional ∧
    ∃ c rest, p.name.toList = '*' :: c :: rest ∧ isBlank c = true

namespace IsWritten

variable {p q : Parameter} {slot : List Char} (h : p.IsWritten)

include h

/-- What a slot gives is written as the slot, if the slot holds written parts behind its stars. -/
theorem render_of_gives (hbody : afterStars slot = p.parts.text) (hq : Gives slot q) :
    q.render.toList = slot := by
  have hread := hq.read
  rw [hbody, h.readParameter_partsText, Option.some.injEq] at hread
  -- the kind is all that may have changed, and no part of the text depends on it
  have hparts : q.parts = p.parts := by
    rw [← hread]
    rfl
  rw [toList_render, hparts, ← hbody, ← hq.stars]

/-- A star before a name belongs to the stars of the kind, and the rest is a name again. -/
theorem of_cons_star {c : Char} {rest : List Char} (hname : p.name.toList = '*' :: c :: rest)
    (hblank : isBlank c = false) : IsWritten { p with name := String.ofList (c :: rest) } := by
  have hstar : Signature.isOrdinary '*' = true := rfl
  obtain ⟨-, htrim, hnested, hfree⟩ := h.name
  rw [hname] at htrim hnested hfree
  -- a star opens nothing, so that what is on top stays on top without it
  refine ⟨⟨?_, ?_, ?_, ?_⟩, h.annotation, h.default⟩ <;> rw [String.toList_ofList]
  · exact List.cons_ne_nil c rest
  · rw [trim_eq_self_iff] at htrim ⊢
    refine ⟨?_, ?_⟩
    · intro d hd
      rw [List.head?_cons, Option.some.injEq] at hd
      rwa [← hd]
    · intro d hd
      exact htrim.2 d (by rwa [List.getLast?_cons_cons])
  · exact (nested_cons_iff hstar _).mp hnested
  · intro mark hmark htop
    exact hfree mark hmark ((onTop_cons_iff hstar _).mpr (.inr htop))

/-- A lone star behind the star of a parameter leaves no name. -/
theorem readParameter_of_star (hname : p.name.toList = ['*']) (kind : ParameterKind) {body}
    (hbody : p.parts.text = '*' :: body) : readParameter kind body = none := by
  obtain ⟨-, -, htype, htypeFree, hvalue⟩ := h.isCut
  have hcut : Parts.IsCut { p.parts with name := [] } :=
    ⟨.nil, fun mark _ => not_onTop_nil mark, htype, htypeFree, hvalue⟩
  -- what is left is a text with the same annotation and default, and an empty name
  have htext : body = Parts.text { p.parts with name := [] } := by
    have hstar : p.parts.text = '*' :: Parts.text { p.parts with name := [] } := by
      rw [Parts.text, Parts.text, parts, hname]
      rfl
    rw [hstar, List.cons.injEq] at hbody
    exact hbody.2.symm
  rw [htext, readParameter_text kind hcut]
  rfl

/-- What the slot of a written parameter gives is written as the slot. -/
theorem render_of_gives_render (hstar : p.kind.stars = "" → ¬ ['*'] <+: p.name.toList)
    (hspaced : ¬ p.HasSpacedStar) (hq : Gives p.render.toList q) :
    q.render.toList = p.render.toList := by
  have hprefix := star_prefix_partsText_iff h.name.ne_nil
  have htext := p.toList_render
  cases hkind : p.kind with
  | varKeyword =>
    -- two stars are taken off, whatever the name begins with
    apply h.render_of_gives _ hq
    rw [htext, hkind]
    rfl
  | varPositional =>
    rw [hkind] at htext
    by_cases hname : ['*'] <+: p.name.toList
    · -- the name gives a star away, so that the slot is that of two stars
      obtain ⟨more, hmore⟩ := hname
      rw [List.singleton_append] at hmore
      cases more with
      | nil =>
        obtain ⟨body, hbody⟩ : ['*'] <+: p.parts.text := hprefix.mpr ⟨[], hmore⟩
        have hread := hq.read
        rw [htext, ← hbody] at hread
        have hnone := h.readParameter_of_star hmore.symm q.kind hbody.symm
        exact absurd (hread.symm.trans hnone) (by simp)
      | cons c rest =>
        have hblank : isBlank c = false := by
          rw [← Bool.not_eq_true]
          exact fun hblank => hspaced ⟨hkind, c, rest, hmore.symm, hblank⟩
        apply (h.of_cons_star hmore.symm hblank).render_of_gives _ hq
        rw [htext, Parts.text, Parts.text, parts, parts, ← hmore, String.toList_ofList]
        rfl
    · apply h.render_of_gives _ hq
      rw [htext]
      exact afterStars_star (mt hprefix.mp hname)
  | _ =>
    rw [hkind] at htext hstar
    apply h.render_of_gives _ hq
    rw [htext]
    exact afterStars_plain (mt hprefix.mp (hstar rfl))

end IsWritten

end Parameter

namespace Signature

/-! ## 2. Slots with all their markers in need -/

def IsStarred (slot : List Char) : Prop :=
  ['*'] <+: slot ∧ ¬ ['*', '*'] <+: slot ∧ slot ≠ ['*']

/-- Whether a lone star stands among the slots only where one is written: once, beside no star
parameter, and before a parameter that needs it. -/
structure StarNeeded (slots : List (List Char)) : Prop where
  once : ∀ front back, slots = front ++ ['*'] :: back → ['*'] ∉ front
  alone : ['*'] ∈ slots → ∀ slot ∈ slots, ¬ IsStarred slot
  followed : ∀ front back, slots = front ++ ['*'] :: back →
    ∃ slot after, back = slot :: after ∧ ¬ ['*'] <+: slot

/-- Whether no star has to be written before the rest of the slots any more. -/
def StarKnown (before rest : List (List Char)) : Prop :=
  ['*'] ∈ before ∨ ∃ slot ∈ before ++ rest, IsStarred slot

theorem starKnown_concat_iff {before rest : List (List Char)} {slot : List Char}
    (h : slot ≠ ['*']) : StarKnown (before ++ [slot]) rest ↔ StarKnown before (slot :: rest) := by
  have hmem : ['*'] ∈ before ++ [slot] ↔ ['*'] ∈ before := by
    simp [Ne.symm h]
  rw [StarKnown, StarKnown, hmem, List.append_cons before slot rest]

/-- The slots without a slash that stands in front of them. -/
def dropSlash : List (List Char) → List (List Char)
  | ['/'] :: slots => slots
  | slots => slots

theorem dropSlash_cons {slot : List Char} (h : slot ≠ ['/']) (slots : List (List Char)) :
    dropSlash (slot :: slots) = slot :: slots := by
  rw [dropSlash]
  intro others heq
  exact h (List.cons.inj heq).1

namespace SlotsFit

variable {before after : List (List Char)} {slot earlier : List Char}

/-- Nothing is dropped behind a slash, since there is no other. -/
theorem dropSlash_eq (h : SlotsFit (before ++ ['/'] :: after)) : dropSlash after = after := by
  cases after with
  | nil => rfl
  | cons slot after =>
    apply dropSlash_cons
    rintro rfl
    have hcount := h.slash_once
    simp only [List.count_append, List.count_cons_self] at hcount
    omega

theorem ne_slash_of_star (h : SlotsFit (before ++ slot :: after)) (hmem : earlier ∈ before)
    (hstar : ['*'] <+: earlier) : slot ≠ ['/'] := by
  rintro rfl
  exact (h.slash_place before after rfl).2 earlier hmem hstar

/-- Only slots with one star stand before another slot. -/
theorem single_of_star (h : SlotsFit (before ++ slot :: after)) (hmem : earlier ∈ before)
    (hstar : ['*'] <+: earlier) : earlier = ['*'] ∨ IsStarred earlier := by
  obtain ⟨front, back, rfl⟩ := List.append_of_mem hmem
  have hdouble : ¬ ['*', '*'] <+: earlier := by
    intro hdouble
    have hnil := h.double_last front earlier (back ++ slot :: after) (by simp) hdouble
    simp at hnil
  by_cases hne : earlier = ['*']
  · exact .inl hne
  · exact .inr ⟨hstar, hdouble, hne⟩

theorem starKnown_of_keywordOnly (h : SlotsFit (before ++ slot :: after))
    (hkind : Place.kind ⟨before, slot, after⟩ = .keywordOnly) :
    StarKnown before (slot :: after) := by
  obtain ⟨earlier, hmem, hstar⟩ := Place.exists_star_of_keywordOnly hkind
  rcases h.single_of_star hmem hstar with rfl | hsingle
  · exact .inl hmem
  · exact .inr ⟨earlier, List.mem_append_left _ hmem, hsingle⟩

/-- No place behind the slash is turned by another. -/
theorem kind_ne_of_slash (h : SlotsFit (before ++ ['/'] :: after)) {place : Place}
    (hplace : place ∈ parameterPlacesFrom (before ++ [['/']]) after) :
    place.kind ≠ .positionalOnly := by
  intro hkind
  obtain ⟨front, -, rfl⟩ := exists_of_mem_placesFrom (List.mem_of_mem_filter hplace)
  have hafter := List.count_pos_iff.mpr (Place.mem_after_of_positionalOnly hkind)
  have hcount := h.slash_once
  simp only [List.count_append, List.count_cons, beq_self_eq_true, if_true] at hcount
  omega

end SlotsFit

/-! ## 3. Writing the parameters of places -/

/-- Whether a parameter is of the kind of a place and is written as its slot. -/
structure Place.Holds (place : Place) (p : Parameter) : Prop where
  kind : p.kind = place.kind
  slot : p.render.toList = place.slot

theorem map_kind_of_holds {places : List Place} {ps : List Parameter}
    (h : List.Forall₂ Place.Holds places ps) : ps.map (·.kind) = places.map (·.kind) := by
  induction h with
  | nil => rfl
  | cons hp _ ih => rw [List.map_cons, List.map_cons, hp.kind, ih]

/-- A slash is written behind a parameter if and only if one stands behind its slot. -/
theorem map_markerAfter {before rest : List (List Char)} {slot : List Char} {p : Parameter}
    {ps : List Parameter} (hfit : SlotsFit (before ++ slot :: rest))
    (hp : p.kind = Place.kind ⟨before, slot, rest⟩)
    (hps : ps.map (·.kind) = (parameterPlacesFrom (before ++ [slot]) rest).map (·.kind)) :
    (markerAfter p ps).map String.toList ++ dropSlash rest = rest := by
  rw [List.append_cons] at hfit
  have hkind : p.kind = .positionalOnly → ['/'] ∈ rest := by
    intro hpositional
    exact Place.mem_after_of_positionalOnly (hp.symm.trans hpositional)
  cases rest with
  | nil =>
    rw [markerAfter, if_neg fun h => absurd (hkind h.1) List.not_mem_nil]
    rfl
  | cons next rest =>
    by_cases hnext : next = ['/']
    · -- the slash turns the parameter before it, but none that comes behind it
      subst hnext
      obtain ⟨-, hnone⟩ := hfit.slash_place _ _ rfl
      have hpositional : p.kind = .positionalOnly := by
        rw [hp]
        apply Place.kind_of_slash
        · exact hnone slot (by simp)
        · exact fun earlier hearlier => hnone earlier (List.mem_append_left _ hearlier)
        · exact List.mem_cons_self
      rw [parameterPlacesFrom_cons_marker (.inl rfl)] at hps
      have hhead : ps.head?.map (·.kind) ≠ some .positionalOnly := by
        intro hhead
        rw [← List.head?_map, hps, List.head?_map, Option.map_eq_some_iff] at hhead
        obtain ⟨place, hplace, hturned⟩ := hhead
        exact hfit.kind_ne_of_slash (List.mem_of_mem_head? hplace) hturned
      rw [markerAfter, if_pos ⟨hpositional, hhead⟩, dropSlash]
      rfl
    · rw [dropSlash_cons hnext, markerAfter, if_neg, List.map_nil, List.nil_append]
      rintro ⟨hpositional, hhead⟩
      -- the slash that follows later turns the next parameter as well
      have hlater := (List.mem_cons.mp (hkind hpositional)).resolve_left (Ne.symm hnext)
      obtain ⟨front, back, rfl⟩ := List.append_of_mem hlater
      obtain ⟨-, hnone⟩ := hfit.slash_place (before ++ [slot] ++ next :: front) back (by simp)
      have hstar : ¬ ['*'] <+: next := hnone next (by simp)
      rw [parameterPlacesFrom_cons hnext (not_star_iff_of_not_star hstar).2] at hps
      apply hhead
      rw [← List.head?_map, hps, List.map_cons, List.head?_cons, Option.some.injEq]
      apply Place.kind_of_slash hstar
      · exact fun earlier hearlier => hnone earlier (List.mem_append_left _ hearlier)
      · exact hlater

/-- The parameters of places are written as the slots, with the markers where they stood. -/
theorem map_renderSlots_of_places {before rest : List (List Char)} {ps : List Parameter}
    {starred : Bool} (hfit : SlotsFit (before ++ rest)) (hneeded : StarNeeded (before ++ rest))
    (hstarred : starred = true ↔ StarKnown before rest)
    (hps : List.Forall₂ Place.Holds (parameterPlacesFrom before rest) ps) :
    (renderSlots starred ps).map String.toList = dropSlash rest := by
  -- of the slots before, the writer remembers nothing but whether it still owes a star
  induction rest generalizing before ps starred with
  | nil =>
    cases hps
    rfl
  | cons slot rest ih =>
    have hsplit := List.append_cons before slot rest
    by_cases hslash : slot = ['/']
    · -- the parameter before it has brought the slash along
      subst hslash
      rw [parameterPlacesFrom_cons_marker (.inl rfl)] at hps
      rw [← starKnown_concat_iff (by decide)] at hstarred
      have hdrop := hfit.dropSlash_eq
      rw [hsplit] at hfit hneeded
      rw [ih hfit hneeded hstarred hps, hdrop, dropSlash]
    by_cases hstar : slot = ['*']
    · subst hstar
      rw [parameterPlacesFrom_cons_marker (.inr rfl)] at hps
      -- no star came before, and the parameter behind this one needs it
      have hfalse : starred = false := by
        rw [← Bool.not_eq_true, hstarred, StarKnown, not_or]
        refine ⟨hneeded.once before rest rfl, ?_⟩
        rintro ⟨other, hmem, hother⟩
        exact hneeded.alone (by simp) other hmem hother
      obtain ⟨next, more, rfl, hnext⟩ := hneeded.followed before rest rfl
      rw [hsplit] at hfit hneeded
      have hmem : ['*'] ∈ before ++ [['*']] := by simp
      have hbehind : (renderSlots true ps).map String.toList = dropSlash (next :: more) :=
        ih hfit hneeded (iff_of_true rfl (.inl hmem)) hps
      have hnextSlash := hfit.ne_slash_of_star hmem (List.prefix_refl _)
      rw [parameterPlacesFrom_cons hnextSlash (not_star_iff_of_not_star hnext).2] at hps
      cases hps with
      | @cons _ p _ ps hp _ =>
        have hkind : p.kind = .keywordOnly := by
          rw [hp.kind, Place.kind_of_plain hnext]
          exact if_pos ⟨['*'], hmem, List.prefix_refl _⟩
        rw [hfalse, renderSlots_keywordOnly hkind, List.map_cons, hbehind,
          dropSlash_cons hnextSlash, dropSlash_cons (by decide)]
        rfl
    · rw [parameterPlacesFrom_cons hslash hstar] at hps
      cases hps with
      | @cons _ p _ ps hp hps =>
        -- the star that makes a parameter keyword-only is known to the writer
        have hkeyword : p.kind = .keywordOnly → starred = true := by
          intro hkind
          rw [hstarred]
          exact hfit.starKnown_of_keywordOnly (hp.kind.symm.trans hkind)
        have hafter := map_markerAfter hfit hp.kind (map_kind_of_holds hps)
        rw [← starKnown_concat_iff hstar] at hstarred
        rw [hsplit] at hfit hneeded
        have hrest := ih hfit hneeded hstarred hps
        rw [renderSlots_cons hkeyword, List.map_append, List.map_cons, List.cons_append, hrest,
          hafter, hp.slot, dropSlash_cons hslash]

/-- A star parameter is one whose slot has one star before its name. -/
theorem hasKind_varPositional_iff {before slots : List (List Char)} {ps : List Parameter}
    (h : ps.map (·.kind) = (parameterPlacesFrom before slots).map (·.kind)) :
    hasKind ps .varPositional = true ↔ ∃ slot ∈ slots, IsStarred slot := by
  have hmem : hasKind ps .varPositional = true ↔ .varPositional ∈ ps.map (·.kind) := by
    simp [hasKind]
  rw [hmem, h, List.mem_map]
  constructor
  · rintro ⟨place, hplace, hkind⟩
    obtain ⟨hplace, hmarker⟩ := List.mem_filter.mp hplace
    obtain ⟨front, -, rfl⟩ := exists_of_mem_placesFrom hplace
    -- a lone star gives no parameter
    have hne : place.slot ≠ ['*'] := by
      rintro hstar
      simp [Place.IsMarker, hstar] at hmarker
    obtain ⟨hstar, hdouble⟩ := Place.star_of_varPositional hkind
    exact ⟨place.slot, by simp, hstar, hdouble, hne⟩
  · rintro ⟨slot, hslot, hstar, hdouble, hne⟩
    have hparameter : slot ∈ parameterSlots slots := by
      simp [parameterSlots, hslot, hne, ne_slash_of_star hstar]
    rw [← map_slot_parameterPlacesFrom before] at hparameter
    obtain ⟨place, hplace, rfl⟩ := List.mem_map.mp hparameter
    exact ⟨place, hplace, Place.kind_of_single hstar hdouble⟩

theorem slotTexts_of_holds {slots : List (List Char)} {ps : List Parameter}
    (hfit : SlotsFit slots) (hneeded : StarNeeded slots)
    (hps : List.Forall₂ Place.Holds (parameterPlacesFrom [] slots) ps) : slotTexts ps = slots := by
  have hstarred : hasKind ps .varPositional = true ↔ StarKnown [] slots := by
    rw [hasKind_varPositional_iff (map_kind_of_holds hps), StarKnown,
      or_iff_right List.not_mem_nil, List.nil_append]
  rw [← List.nil_append slots] at hfit hneeded
  apply (map_renderSlots_of_places hfit hneeded hstarred hps).trans
  -- a slash is never the first of the slots
  cases slots with
  | nil => rfl
  | cons slot slots =>
    apply dropSlash_cons
    rintro rfl
    exact (hfit.slash_place [] slots rfl).1 rfl

/-! ## 4. The slots of an accepted signature -/

/-- Where no parameter is written as a star, a star is a marker before a keyword-only parameter. -/
theorem star_of_renderSlots {starred : Bool} {parameters : List Parameter}
    {front back : List String} (hnone : ∀ p ∈ parameters, p.render ≠ "*")
    (h : renderSlots starred parameters = front ++ "*" :: back) :
    starred = false ∧ "*" ∉ front ∧
      ∃ p ∈ parameters, p.kind = .keywordOnly ∧ ∃ more, back = p.render :: more := by
  induction parameters generalizing front with
  | nil => simp [renderSlots] at h
  | cons p rest ih =>
    -- the marker is written where a keyword-only parameter finds the flag down
    by_cases hkeyword : p.kind = .keywordOnly → starred = true
    · rw [renderSlots_cons hkeyword] at h
      have hother : "*" ∉ p.render :: markerAfter p rest := by
        rw [List.mem_cons, not_or]
        refine ⟨(hnone p (by simp)).symm, ?_⟩
        rw [markerAfter]
        split <;> simp
      -- the star comes from the parameters behind this one
      obtain ⟨more, rfl, hmore⟩ : ∃ more, front = p.render :: markerAfter p rest ++ more ∧
          renderSlots starred rest = more ++ "*" :: back := by
        rcases List.append_eq_append_iff.mp h with hmore | ⟨more, hfront, hback⟩
        · exact hmore
        · cases more with
          | nil => exact ⟨[], by rw [hfront, List.append_nil, List.append_nil], hback.symm⟩
          | cons slot more =>
            rw [List.cons_append, List.cons.injEq] at hback
            rw [hfront, ← hback.1] at hother
            exact absurd (by simp) hother
      obtain ⟨hfalse, hfront, q, hq, hback⟩ :=
        ih (fun q hq => hnone q (List.mem_cons_of_mem _ hq)) hmore
      refine ⟨hfalse, ?_, q, List.mem_cons_of_mem _ hq, hback⟩
      rw [List.mem_append, not_or]
      exact ⟨hother, hfront⟩
    · obtain ⟨hkind, hstarred⟩ := Classical.not_imp.mp hkeyword
      rw [Bool.not_eq_true] at hstarred
      rw [hstarred, renderSlots_keywordOnly hkind] at h
      cases front with
      | nil =>
        rw [List.nil_append, List.cons.injEq, renderSlots_cons fun _ => rfl] at h
        exact ⟨hstarred, List.not_mem_nil, p, by simp, hkind, _, h.2.symm⟩
      | cons slot front =>
        -- behind the marker the flag is up, and no other is written
        rw [List.cons_append, List.cons.injEq] at h
        have hmem : "*" ∈ renderSlots true (p :: rest) := by
          rw [h.2]
          simp
        obtain ⟨q, hq, hrender⟩ := exists_render_eq_star hmem
        exact absurd hrender (hnone q hq)

namespace Accepted

variable {s : Signature} (h : s.Accepted)

include h

theorem not_star_render {p : Parameter} (hp : p ∈ s.parameters) (hkind : p.kind.stars = "") :
    ¬ ['*'] <+: p.render.toList := by
  rw [p.toList_render, hkind, String.toList_empty, List.nil_append,
    Parameter.star_prefix_partsText_iff (h.isWritten p hp).name.ne_nil]
  exact h.not_star_name hp hkind

theorem render_ne_star {p : Parameter} (hp : p ∈ s.parameters) : p.render.toList ≠ ['*'] := by
  have hname := (h.isWritten p hp).name.ne_nil
  cases hkind : p.kind with
  | varPositional =>
    rw [p.toList_render, hkind, Parameter.parts]
    simp [ParameterKind.stars, Parts.text, hname]
  | varKeyword =>
    rw [p.toList_render, hkind]
    simp [ParameterKind.stars]
  | _ =>
    intro hstar
    exact h.not_star_render hp (by rw [hkind]; rfl) (hstar ▸ List.prefix_refl _)

theorem varPositional_of_isStarred {p : Parameter} (hp : p ∈ s.parameters)
    (hstarred : IsStarred p.render.toList) : p.kind = .varPositional := by
  obtain ⟨hstar, hdouble, -⟩ := hstarred
  cases hkind : p.kind with
  | varPositional => rfl
  | varKeyword =>
    rw [p.toList_render, hkind] at hdouble
    exact absurd ⟨_, rfl⟩ hdouble
  | _ => exact absurd hstar (h.not_star_render hp (by rw [hkind]; rfl))

/-- A lone star is written once at most, without star parameters, before a keyword-only one. -/
theorem star_of_slotTexts {front back : List (List Char)}
    (heq : slotTexts s.parameters = front ++ ['*'] :: back) :
    hasKind s.parameters .varPositional = false ∧ ['*'] ∉ front ∧
      ∃ p ∈ s.parameters, p.kind = .keywordOnly ∧ ∃ after, back = p.render.toList :: after := by
  have hnone : ∀ p ∈ s.parameters, p.render ≠ "*" := by
    intro p hp hrender
    exact h.render_ne_star hp (by rw [hrender]; rfl)
  obtain ⟨front, rest, hslots, rfl, hrest⟩ := List.map_eq_append_iff.mp heq
  obtain ⟨star, back, rfl, hstar, rfl⟩ := List.map_eq_cons_iff.mp hrest
  rw [show star = "*" from String.toList_inj.mp hstar] at hslots
  obtain ⟨hfalse, hfront, p, hp, hkind, more, rfl⟩ := star_of_renderSlots hnone hslots
  refine ⟨hfalse, ?_, p, hp, hkind, _, rfl⟩
  intro hmem
  obtain ⟨text, htext, hchars⟩ := List.mem_map.mp hmem
  rw [show text = "*" from String.toList_inj.mp hchars] at htext
  exact hfront htext

theorem starNeeded_slotTexts : StarNeeded (slotTexts s.parameters) := by
  refine ⟨?_, ?_, ?_⟩
  · intro front back heq
    exact (h.star_of_slotTexts heq).2.1
  · intro hmem slot hslot hstarred
    obtain ⟨front, back, heq⟩ := List.append_of_mem hmem
    obtain ⟨hfalse, -⟩ := h.star_of_slotTexts heq
    obtain ⟨text, htext, rfl⟩ := List.mem_map.mp hslot
    rcases mem_renderSlots htext with rfl | rfl | ⟨p, hp, rfl⟩
    · exact hstarred.2.2 rfl
    · exact absurd hstarred.1 (by decide)
    · have hkind := h.varPositional_of_isStarred hp hstarred
      have htrue : hasKind s.parameters .varPositional = true :=
        List.any_eq_true.mpr ⟨p, hp, by simp [hkind]⟩
      exact absurd htrue (by simp [hfalse])
  · intro front back heq
    obtain ⟨-, -, p, hp, hkind, after, rfl⟩ := h.star_of_slotTexts heq
    exact ⟨_, after, rfl, h.not_star_render hp (by rw [hkind]; rfl)⟩

/-- What is read from the written slots is written as these slots. -/
theorem slotTexts_of_reads (hspaced : ∀ p ∈ s.parameters, ¬ p.HasSpacedStar) {last : Reading}
    (hreads : Reading.start.Reads (slotTexts s.parameters) last) :
    slotTexts last.parameters = slotTexts s.parameters := by
  have hslots := isSlotText_slotTexts h.isWritten
  have hfit := (exists_reads_iff fun slot hslot => (hslots slot hslot).piece.1).mp ⟨last, hreads⟩
  have hholds : List.Forall₂ Place.Holds (parameterPlacesFrom [] (slotTexts s.parameters))
      last.parameters := by
    -- the markers apart, the slots are those of the parameters
    have hwritten : ∀ place ∈ parameterPlacesFrom [] (slotTexts s.parameters),
        ∃ p ∈ s.parameters, p.render.toList = place.slot := by
      intro place hplace
      have hslot := List.mem_map_of_mem (f := (·.slot)) hplace
      rw [map_slot_parameterPlacesFrom, slotTexts, parameterSlots_renderSlots] at hslot
      exact List.mem_map.mp (List.mem_of_mem_filter hslot)
    have hgives := (List.forall₂_and_left _ _).mpr ⟨hwritten, forall₂_gives_of_reads hreads⟩
    apply hgives.imp
    rintro place q ⟨⟨p, hp, hslot⟩, hkind, hq⟩
    rw [← hslot] at hq
    refine ⟨hkind, ?_⟩
    rw [← hslot]
    exact (h.isWritten p hp).render_of_gives_render (h.not_star_name hp) (hspaced p hp) hq
  exact slotTexts_of_holds hfit h.starNeeded_slotTexts hholds

end Accepted

/-- What is read from the written form of an accepted signature is written as it is. -/
theorem Accepted.render_of_parse_render {s other : Signature} (h : s.Accepted)
    (hspaced : ∀ p ∈ s.parameters, ¬ p.HasSpacedStar) (hparse : parse s.render = .ok other) :
    other.render = s.render := by
  rw [parse_render_iff h.isWritten h.returns] at hparse
  obtain ⟨hreturns, last, hreads, hlast⟩ := hparse
  rw [← String.toList_inj, toList_render, toList_render, hreturns, hlast,
    h.slotTexts_of_reads hspaced hreads]

end Signature

end ModuleSurface
