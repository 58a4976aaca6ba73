import ModuleSurface.Proofs.Signature.Grammar
import ModuleSurface.Proofs.Signature.Written

/-!
# ReadBack — what parsing makes of the written form of a signature

The written form is cut at exactly the commas that were written, so that parsing it is reading
the written slots in order (`parse_render_iff`).
-/

namespace ModuleSurface.Signature

open Nesting (start)
open Text (trim join AllBlank trim_eq_nil_iff trim_cons_space trim_eq_self_of_ends)

/-! ## 1. The slots of a written signature -/

theorem mem_renderSlots {starred : Bool} {parameters : List Parameter} {slot : String}
    (h : slot ∈ renderSlots starred parameters) :
    slot = "*" ∨ slot = "/" ∨ ∃ p ∈ parameters, slot = p.render := by
  induction parameters generalizing starred with
  | nil => exact absurd h (by simp [renderSlots])
  | cons p rest ih =>
    simp only [renderSlots, List.mem_append, List.mem_cons] at h
    rcases h with (h | rfl | h) | h
    · rw [markerBefore] at h
      split at h
      · exact .inl (List.mem_singleton.mp h)
      · exact absurd h (by simp)
    · exact .inr (.inr ⟨p, by simp, rfl⟩)
    · rw [markerAfter] at h
      split at h
      · exact .inr (.inl (List.mem_singleton.mp h))
      · exact absurd h (by simp)
    · rcases ih h with hstar | hslash | ⟨q, hq, rfl⟩
      · exact .inl hstar
      · exact .inr (.inl hslash)
      · exact .inr (.inr ⟨q, by simp [hq], rfl⟩)

def slotTexts (parameters : List Parameter) : List (List Char) :=
  (renderSlots (hasKind parameters .varPositional) parameters).map String.toList

/-- A slot as it is written: a piece between commas without blanks at its ends. -/
structure IsSlotText (slot : List Char) : Prop where
  ne_nil : slot ≠ []
  trimmed : trim slot = slot
  piece : IsPiece ',' slot

theorem isSlotText_slotTexts {parameters : List Parameter} (h : ∀ p ∈ parameters, p.IsWritten) :
    ∀ slot ∈ slotTexts parameters, IsSlotText slot := by
  intro slot hslot
  obtain ⟨text, htext, rfl⟩ := List.mem_map.mp hslot
  -- both markers are single characters that open nothing
  have hmarker : ∀ c, isOrdinary c = true → Text.isBlank c = false → c ≠ ',' →
      IsSlotText [c] := by
    intro c hc hblank hcomma
    refine ⟨by simp, (Text.trim_eq_self_iff _).mpr (by simpa using hblank), .char hc .nil, ?_⟩
    rw [onTop_cons_iff hc, not_or]
    exact ⟨hcomma.symm, not_onTop_nil ','⟩
  rcases mem_renderSlots htext with rfl | rfl | ⟨p, hp, rfl⟩
  · exact hmarker '*' rfl (by decide) (by decide)
  · exact hmarker '/' rfl (by decide) (by decide)
  · exact ⟨(h p hp).render_ne_nil, (h p hp).trim_render, (h p hp).isPiece_render⟩

/-- The pieces of the written slots: there is a blank behind each comma. -/
def piecesOf : List (List Char) → List (List Char)
  | [] => []
  | slot :: slots => slot :: slots.map (' ' :: ·)

theorem join_piecesOf (slots : List (List Char)) :
    join [','] (piecesOf slots) = [',', ' '].intercalate slots := by
  cases slots with
  | nil => rfl
  | cons slot slots =>
    -- the first slot has no blank before it, so that it is not part of the induction
    rw [piecesOf]
    induction slots generalizing slot with
    | nil => simp [join]
    | cons second slots ih =>
      have hspace : join [','] ((' ' :: second) :: slots.map (' ' :: ·)) =
          ' ' :: join [','] (second :: slots.map (' ' :: ·)) := by
        cases slots <;> rfl
      rw [List.map_cons, Text.join_cons_cons, hspace, ih second, List.intercalate_cons_cons]
      simp

theorem isSlots_intercalate {slots : List (List Char)} (hne : slots ≠ [])
    (h : ∀ slot ∈ slots, IsSlotText slot) : IsSlots ([',', ' '].intercalate slots) slots := by
  obtain ⟨slot, more, rfl⟩ := List.exists_cons_of_ne_nil hne
  refine ⟨piecesOf (slot :: more), by simp [piecesOf], (join_piecesOf _).symm, ?_, ?_⟩
  · intro piece hpiece
    rcases List.mem_cons.mp hpiece with rfl | hpiece
    · exact (h piece (by simp)).piece
    · obtain ⟨other, hother, rfl⟩ := List.mem_map.mp hpiece
      obtain ⟨hnested, hfree⟩ := (h other (by simp [hother])).piece
      refine ⟨.char rfl hnested, ?_⟩
      rw [onTop_cons_iff rfl, not_or]
      exact ⟨by decide, hfree⟩
  · rw [piecesOf, List.map_cons, List.map_map, (h slot (by simp)).trimmed]
    have hmore : ∀ other ∈ more, (trim ∘ (' ' :: ·)) other = other := by
      intro other hother
      show trim (' ' :: other) = other
      rw [trim_cons_space, (h other (by simp [hother])).trimmed]
    rw [List.map_congr_left hmore, List.map_id']

/-! ## 2. Parsing the written form -/

/-- Whether a return annotation is read back as it is written. -/
def IsReturn (type : String) : Prop :=
  type.toList ≠ [] ∧ trim type.toList = type.toList

instance (type : String) : Decidable (IsReturn type) :=
  inferInstanceAs (Decidable (_ ∧ _))

theorem returns_render {returns : Option String} (h : ∀ type ∈ returns, IsReturn type)
    (other : Option String) : Returns (renderReturns returns).toList other ↔ other = returns := by
  cases returns with
  | none =>
    cases other with
    | none => simp [Returns, renderReturns, AllBlank]
    | some type => simp [Returns, renderReturns]
  | some type =>
    obtain ⟨hne, htrim⟩ := h type rfl
    have hchars : (renderReturns (some type)).toList = ' ' :: '-' :: '>' :: ' ' :: type.toList := by
      simp [renderReturns, String.toList_append]
    -- the arrow and the annotation keep the blank between them, since only ends are trimmed
    have harrow : trim (renderReturns (some type)).toList = '-' :: '>' :: ' ' :: type.toList := by
      rw [hchars, trim_cons_space]
      have hfront : ['-'] <+: '-' :: '>' :: ' ' :: type.toList := ⟨_, rfl⟩
      exact trim_eq_self_of_ends (by decide) htrim (by simp) hne hfront ⟨['-', '>', ' '], rfl⟩
    have hsome : trim (' ' :: type.toList) = type.toList := by
      rw [trim_cons_space, htrim]
    cases other with
    | none =>
      simp [Returns, ← trim_eq_nil_iff, harrow]
    | some text =>
      simp only [Returns, harrow, List.cons.injEq, true_and, Option.some.injEq]
      constructor
      · rintro ⟨_, rfl, -, rfl⟩
        rw [hsome, String.ofList_toList]
      · rintro rfl
        refine ⟨_, rfl, ?_, by rw [hsome, String.ofList_toList]⟩
        rw [← trim_eq_nil_iff, hsome]
        exact hne

theorem toList_render (s : Signature) :
    s.render.toList =
      '(' :: [',', ' '].intercalate (slotTexts s.parameters) ++
        ')' :: (renderReturns s.returns).toList := by
  simp [render, slotTexts, String.toList_append, String.toList_intercalate]

theorem trim_toList_render {s : Signature} (h : ∀ type ∈ s.returns, IsReturn type) :
    trim s.render.toList = s.render.toList := by
  rw [toList_render]
  cases hreturns : s.returns with
  | none =>
    have hfront : ['('] <+: '(' :: [',', ' '].intercalate (slotTexts s.parameters) ++ [')'] :=
      ⟨_, rfl⟩
    exact trim_eq_self_of_ends (by decide) (by decide) (by simp) (by simp) hfront ⟨_, rfl⟩
  | some type =>
    obtain ⟨hne, htrim⟩ := h type hreturns
    have htail : (renderReturns (some type)).toList = ' ' :: '-' :: '>' :: ' ' :: type.toList := by
      simp [renderReturns, String.toList_append]
    rw [htail, List.cons_append]
    have hfront : ['('] <+: '(' :: ([',', ' '].intercalate (slotTexts s.parameters) ++
        ')' :: ' ' :: '-' :: '>' :: ' ' :: type.toList) := ⟨_, rfl⟩
    refine trim_eq_self_of_ends (by decide) htrim (by simp) hne hfront ?_
    exact ⟨'(' :: [',', ' '].intercalate (slotTexts s.parameters) ++ [')', ' ', '-', '>', ' '],
      by simp⟩

/-- Parsing the written form is reading the written slots in order. -/
theorem parse_render_iff {s : Signature} (hwritten : ∀ p ∈ s.parameters, p.IsWritten)
    (hreturns : ∀ type ∈ s.returns, IsReturn type) (other : Signature) :
    parse s.render = .ok other ↔
      other.returns = s.returns ∧
        ∃ last, Reading.start.Reads (slotTexts s.parameters) last ∧
          other.parameters = last.parameters := by
  have hslots := isSlotText_slotTexts hwritten
  have htext := (trim_toList_render hreturns).trans s.toList_render
  -- without slots nothing stands between the brackets, and that is not one empty slot
  by_cases hempty : slotTexts s.parameters = []
  · rw [hempty] at htext ⊢
    have hnested : Nested ([',', ' '].intercalate []) := .nil
    rw [parse_group_iff htext hnested, returns_render hreturns]
    simp [Declares, AllBlank, Reading.Reads, Reading.start]
  · have hcut := isSlots_intercalate hempty hslots
    rw [parse_group_iff htext hcut.inner_nested, returns_render hreturns,
      declares_iff_of_isSlots (hcut.not_allBlank fun slot hslot => (hslots slot hslot).ne_nil) hcut]

end ModuleSurface.Signature
