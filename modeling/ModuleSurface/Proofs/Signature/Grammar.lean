import ModuleSurface.Proofs.Signature.Slots

/-!
# Grammar — the texts that are signatures

`IsSignatureText` is the grammar of written signatures, said without the parser: parentheses
around slots between commas, and perhaps an arrow and a return annotation behind them.  The parser
accepts exactly these texts (`parse_accepts_iff`), and `parse_eq_ok_iff` says what it makes of one.
-/

namespace ModuleSurface.Signature

open Nesting (start)
open Text (trim join AllBlank trim_eq_nil_iff isEmpty_trim_iff)

/-! ## 1. The slots of a signature -/

/-- Whether slots may stand beside one another in this order. -/
structure SlotsFit (slots : List (List Char)) : Prop where
  ne_nil : ∀ slot ∈ slots, slot ≠ []
  double_last : ∀ before slot after, slots = before ++ slot :: after → ['*', '*'] <+: slot →
    after = []
  slash_once : slots.count ['/'] ≤ 1
  slash_place : ∀ before after, slots = before ++ ['/'] :: after →
    before ≠ [] ∧ ∀ earlier ∈ before, ¬ ['*'] <+: earlier
  named : ∀ slot ∈ slots, slot ≠ ['/'] → slot ≠ ['*'] → HasName (afterStars slot)

/-- An element of a list with one more element at its end is that one or stands before it. -/
theorem concat_eq_append_cons_iff {α : Type} (front before after : List α) (last a : α) :
    front ++ [last] = before ++ a :: after ↔
      (front = before ∧ last = a ∧ after = []) ∨
        ∃ more, after = more ++ [last] ∧ front = before ++ a :: more := by
  constructor
  · intro h
    -- Nothing comes behind the element, or the last one of the list does.
    rcases List.eq_nil_or_concat after with rfl | ⟨more, other, rfl⟩
    · obtain ⟨hfront, hlast⟩ := List.append_inj' h rfl
      simp only [List.cons.injEq, and_true] at hlast
      exact .inl ⟨hfront, hlast, rfl⟩
    · rw [List.concat_eq_append, ← List.cons_append, ← List.append_assoc] at h
      obtain ⟨hfront, hlast⟩ := List.append_inj' h rfl
      simp only [List.cons.injEq, and_true] at hlast
      exact .inr ⟨more, by rw [List.concat_eq_append, hlast], hfront⟩
  · rintro (⟨rfl, rfl, rfl⟩ | ⟨more, rfl, rfl⟩)
    · rfl
    · simp

theorem slotsFit_nil : SlotsFit [] := by
  constructor <;> simp

theorem slotsFit_concat_iff (slots : List (List Char)) (slot : List Char) :
    SlotsFit (slots ++ [slot]) ↔ SlotsFit slots ∧ Fits slots slot := by
  constructor
  · intro h
    have hcount := h.slash_once
    rw [List.count_append] at hcount
    -- a double star before the last slot would not be the last one
    have hopened : ∀ earlier ∈ slots, ¬ ['*', '*'] <+: earlier := by
      intro earlier hmem hdouble
      obtain ⟨before, after, rfl⟩ := List.append_of_mem hmem
      have := h.double_last before earlier (after ++ [slot]) (by simp) hdouble
      simp at this
    refine ⟨⟨?_, ?_, by omega, ?_, ?_⟩, ⟨?_, hopened, ?_, ?_⟩⟩
    · exact fun s hs => h.ne_nil s (List.mem_append_left _ hs)
    · rintro before s after rfl hdouble
      exact absurd hdouble (hopened s (by simp))
    · rintro before after rfl
      exact h.slash_place before (after ++ [slot]) (by simp)
    · exact fun s hs => h.named s (List.mem_append_left _ hs)
    · exact h.ne_nil slot (by simp)
    · -- there is one slash in all, and the last slot is it
      rintro rfl
      refine ⟨?_, h.slash_place slots [] rfl⟩
      rw [List.count_singleton_self] at hcount
      exact List.count_eq_zero.mp (by omega)
    · exact h.named slot (by simp)
  · -- each condition is that of the slots before, or that of the last slot among them
    rintro ⟨h, hslot⟩
    refine ⟨?_, ?_, ?_, ?_, ?_⟩
    · intro s hs
      rcases List.mem_append.mp hs with hs | hs
      · exact h.ne_nil s hs
      · exact List.mem_singleton.mp hs ▸ hslot.ne_nil
    · intro before s after heq hdouble
      rcases (concat_eq_append_cons_iff _ _ _ _ _).mp heq with ⟨-, -, hafter⟩ | ⟨more, -, rfl⟩
      · exact hafter
      · exact absurd hdouble (hslot.opened s (by simp))
    · rw [List.count_append]
      by_cases hslash : slot = ['/']
      · have hnone := List.count_eq_zero.mpr (hslot.slash hslash).1
        rw [hslash, List.count_singleton_self]
        omega
      · rw [List.count_eq_zero.mpr (show ['/'] ∉ [slot] by simpa using Ne.symm hslash)]
        exact h.slash_once
    · intro before after heq
      rcases (concat_eq_append_cons_iff _ _ _ _ _).mp heq with ⟨rfl, hlast, -⟩ | ⟨more, -, rfl⟩
      · exact (hslot.slash hlast).2
      · exact h.slash_place before more rfl
    · intro s hs
      rcases List.mem_append.mp hs with hs | hs
      · exact h.named s hs
      · exact List.mem_singleton.mp hs ▸ hslot.named

/-- Slots can be read to their end if and only if they may stand beside one another. -/
theorem exists_reads_iff {slots : List (List Char)} (hnested : ∀ slot ∈ slots, Nested slot) :
    (∃ last, Reading.start.Reads slots last) ↔ SlotsFit slots := by
  -- from the right, since what a slot needs is said of the slots before it
  induction slots using List.reverseRecOn with
  | nil => exact ⟨fun _ => slotsFit_nil, fun _ => ⟨_, rfl⟩⟩
  | append_singleton slots slot ih =>
    have hslots := ih fun s hs => hnested s (List.mem_append_left _ hs)
    have hslot := hnested slot (by simp)
    simp only [Reading.reads_append_iff, Reading.Reads]
    rw [slotsFit_concat_iff, ← hslots]
    constructor
    · rintro ⟨last, next, hnext, _, hlast, rfl⟩
      -- All that the state behind the earlier slots remembers is said by the slots.
      have hknows := Reading.knows_start.run hnext
      exact ⟨⟨next, hnext⟩, (hknows.exists_next_iff hslot).mp ⟨last, hlast⟩⟩
    · rintro ⟨⟨next, hnext⟩, hfits⟩
      have hknows := Reading.knows_start.run hnext
      obtain ⟨last, hlast⟩ := (hknows.exists_next_iff hslot).mpr hfits
      exact ⟨last, next, hnext, last, hlast, rfl⟩

/-! ## 2. What a text is read as -/

/-- The text behind the closing parenthesis: nothing, or an arrow and a return annotation. -/
def IsReturnText (after : List Char) : Prop :=
  AllBlank after ∨ ∃ type, trim after = '-' :: '>' :: type ∧ ¬ AllBlank type

def Returns (after : List Char) : Option String → Prop
  | none => AllBlank after
  | some type => ∃ whole, trim after = '-' :: '>' :: whole ∧ ¬ AllBlank whole ∧
      type = String.ofList (trim whole)

theorem readReturns_eq_ok_iff (after : List Char) (returns : Option String) :
    readReturns after = .ok returns ↔ Returns after returns := by
  unfold readReturns
  split
  · -- nothing but blanks
    rename_i hnil
    have hblank := (trim_eq_nil_iff after).mp hnil
    cases returns with
    | none => simpa [Returns] using hblank
    | some type => simp [Returns, hnil]
  · -- an arrow, with an annotation behind it or not
    rename_i whole harrow
    have hsome : ¬ AllBlank after := by
      rw [← trim_eq_nil_iff, harrow]
      simp
    split
    · rename_i hempty
      have hblank := (isEmpty_trim_iff whole).mp hempty
      cases returns with
      | none => simpa [Returns] using hsome
      | some type => simp [Returns, harrow, hblank]
    · rename_i hempty
      have hblank := mt (isEmpty_trim_iff whole).mpr hempty
      cases returns with
      | none => simpa [Returns] using hsome
      | some type =>
        simp only [Except.ok.injEq, Option.some.injEq, Returns, harrow, List.cons.injEq, true_and]
        constructor
        · rintro rfl
          exact ⟨whole, rfl, hblank, rfl⟩
        · rintro ⟨_, rfl, -, rfl⟩
          rfl
  · -- something else, which says nothing
    rename_i hnil harrow
    have hsome : ¬ AllBlank after := by
      rw [← trim_eq_nil_iff]
      exact hnil
    cases returns with
    | none => simpa [Returns] using hsome
    | some type =>
      simp only [reduceCtorEq, Returns, false_iff, not_exists, not_and]
      exact fun whole heq => absurd heq (harrow whole)

theorem exists_returns_iff (after : List Char) :
    (∃ returns, Returns after returns) ↔ IsReturnText after := by
  constructor
  · rintro ⟨_ | type, h⟩
    · exact .inl h
    · obtain ⟨whole, harrow, hblank, -⟩ := h
      exact .inr ⟨whole, harrow, hblank⟩
  · rintro (hblank | ⟨whole, harrow, hblank⟩)
    · exact ⟨none, hblank⟩
    · exact ⟨some _, whole, harrow, hblank, rfl⟩

/-- The slots that a text is cut into at the commas on top. -/
def IsSlots (inner : List Char) (slots : List (List Char)) : Prop :=
  ∃ pieces, pieces ≠ [] ∧ inner = join [','] pieces ∧ (∀ piece ∈ pieces, IsPiece ',' piece) ∧
    slots = pieces.map trim

theorem IsSlots.nested {inner : List Char} {slots : List (List Char)} (h : IsSlots inner slots) :
    ∀ slot ∈ slots, Nested slot := by
  obtain ⟨pieces, -, -, hpieces, rfl⟩ := h
  intro slot hslot
  obtain ⟨piece, hpiece, rfl⟩ := List.mem_map.mp hslot
  exact (nested_trim_iff piece).mpr (hpieces piece hpiece).1

theorem IsSlots.inner_nested {inner : List Char} {slots : List (List Char)}
    (h : IsSlots inner slots) : Nested inner := by
  obtain ⟨pieces, -, rfl, hpieces, -⟩ := h
  exact nested_join rfl fun piece hpiece => (hpieces piece hpiece).1

theorem IsSlots.not_allBlank {inner : List Char} {slots : List (List Char)}
    (h : IsSlots inner slots) (hslots : ∀ slot ∈ slots, slot ≠ []) : ¬ AllBlank inner := by
  obtain ⟨pieces, hne, rfl, -, rfl⟩ := h
  obtain ⟨piece, more, rfl⟩ := List.exists_cons_of_ne_nil hne
  intro hblank
  have hpiece : AllBlank piece := by
    intro c hc
    apply hblank
    cases more with
    | nil => exact hc
    | cons second more =>
      rw [Text.join_cons_cons]
      simp [hc]
  exact hslots (trim piece) (by simp) ((trim_eq_nil_iff piece).mpr hpiece)

def Declares (inner : List Char) (parameters : List Parameter) : Prop :=
  (AllBlank inner ∧ parameters = []) ∨
    (¬ AllBlank inner ∧ ∃ slots, IsSlots inner slots ∧
      ∃ last, Reading.start.Reads slots last ∧ parameters = last.parameters)

/-- A text is cut into slots in one way only. -/
theorem IsSlots.unique {inner : List Char} {slots others : List (List Char)}
    (h : IsSlots inner slots) (h' : IsSlots inner others) : slots = others := by
  obtain ⟨pieces, hne, rfl, hpieces, rfl⟩ := h
  obtain ⟨pieces', hne', heq, hpieces', rfl⟩ := h'
  have hcut := topPieces_join rfl hne hpieces
  rw [heq, topPieces_join rfl hne' hpieces', Option.some.injEq] at hcut
  rw [hcut]

theorem declares_iff_of_isSlots {inner : List Char} {slots : List (List Char)}
    (hblank : ¬ AllBlank inner) (hslots : IsSlots inner slots) (parameters : List Parameter) :
    Declares inner parameters ↔
      ∃ last, Reading.start.Reads slots last ∧ parameters = last.parameters := by
  constructor
  · rintro (⟨h, -⟩ | ⟨-, others, hothers, hread⟩)
    · exact absurd h hblank
    · rwa [hslots.unique hothers]
  · exact fun hread => .inr ⟨hblank, slots, hslots, hread⟩

theorem readParameters_eq_ok_iff (whole : List Char) {inner : List Char} (h : Nested inner)
    (parameters : List Parameter) :
    readParameters whole inner = .ok parameters ↔ Declares inner parameters := by
  rw [readParameters]
  by_cases hblank : AllBlank inner
  · rw [if_pos ((isEmpty_trim_iff inner).mpr hblank), Except.ok.injEq, Declares]
    simp only [hblank, true_and, not_true_eq_false, false_and, or_false]
    exact eq_comm
  · obtain ⟨pieces, hne, hinner, hpieces⟩ := exists_pieces ',' rfl h
    have hcut := (topPieces_eq_some_iff rfl h pieces).mpr ⟨hne, hinner, hpieces⟩
    -- The grammar cuts a text in one way only, so the scan's pieces are the ones it means.
    rw [if_neg (mt (isEmpty_trim_iff inner).mp hblank), hcut,
      declares_iff_of_isSlots hblank ⟨pieces, hne, hinner, hpieces, rfl⟩]
    simp only [← Reading.takeAll_eq_ok_iff _ _ 0]
    cases Reading.start.takeAll 0 pieces with
    | error fault => simp [bind, Except.bind]
    | ok last =>
      simp only [bind, Except.bind, pure, Except.pure, Except.ok.injEq, exists_eq_left']
      exact eq_comm

theorem exists_declares_iff (inner : List Char) :
    (∃ parameters, Declares inner parameters) ↔
      AllBlank inner ∨ ∃ slots, IsSlots inner slots ∧ SlotsFit slots := by
  constructor
  · rintro ⟨parameters, ⟨hblank, -⟩ | ⟨-, slots, hslots, last, hlast, -⟩⟩
    · exact .inl hblank
    · exact .inr ⟨slots, hslots, (exists_reads_iff hslots.nested).mp ⟨last, hlast⟩⟩
  · intro h
    by_cases hblank : AllBlank inner
    · exact ⟨[], .inl ⟨hblank, rfl⟩⟩
    · obtain ⟨slots, hslots, hfit⟩ := h.resolve_left hblank
      obtain ⟨last, hlast⟩ := (exists_reads_iff hslots.nested).mpr hfit
      exact ⟨last.parameters, .inr ⟨hblank, slots, hslots, last, hlast, rfl⟩⟩

/-! ## 3. The texts that are signatures -/

/-- What the parser makes of a text with parentheses around a nested text. -/
theorem parse_group_iff {text : String} {inner after : List Char}
    (htext : trim text.toList = '(' :: inner ++ ')' :: after) (hinner : Nested inner)
    (s : Signature) :
    parse text = .ok s ↔ Returns after s.returns ∧ Declares inner s.parameters := by
  have hclose : closeGroup ⟨[')'], .outside⟩ (inner ++ ')' :: after) = some (inner, after) :=
    (closeGroup_eq_some_iff _ _ _).mpr ⟨rfl, hinner⟩
  rw [← readReturns_eq_ok_iff, ← readParameters_eq_ok_iff (trim text.toList) hinner]
  simp only [parse, ofChars, htext, List.cons_append, hclose, bind, Except.bind]
  cases readReturns after with
  | error fault => simp
  | ok returns =>
    cases readParameters ('(' :: (inner ++ ')' :: after)) inner with
    | error fault => simp
    | ok parameters =>
      simp only [pure, Except.pure, Except.ok.injEq]
      constructor
      · rintro rfl
        exact ⟨rfl, rfl⟩
      · rintro ⟨rfl, rfl⟩
        rfl

theorem parse_eq_ok_iff (text : String) (s : Signature) :
    parse text = .ok s ↔
      ∃ inner after, trim text.toList = '(' :: inner ++ ')' :: after ∧ Nested inner ∧
        Returns after s.returns ∧ Declares inner s.parameters := by
  constructor
  · intro h
    obtain ⟨inner, after, htext, hinner⟩ :
        ∃ inner after, trim text.toList = '(' :: inner ++ ')' :: after ∧ Nested inner := by
      rw [parse, ofChars] at h
      split at h
      · rename_i rest hparen
        split at h
        · exact absurd h (by simp)
        · rename_i inner after hclose
          obtain ⟨rfl, hinner⟩ := (closeGroup_eq_some_iff _ _ _).mp hclose
          exact ⟨inner, after, hparen, hinner⟩
      · exact absurd h (by simp)
    exact ⟨inner, after, htext, hinner, (parse_group_iff htext hinner s).mp h⟩
  · rintro ⟨inner, after, htext, hinner, h⟩
    exact (parse_group_iff htext hinner s).mpr h

/-- The grammar of written signatures. -/
def IsSignatureText (text : List Char) : Prop :=
  ∃ inner after, trim text = '(' :: inner ++ ')' :: after ∧ Nested inner ∧ IsReturnText after ∧
    (AllBlank inner ∨ ∃ slots, IsSlots inner slots ∧ SlotsFit slots)

/-- The parser accepts exactly the texts of its grammar. -/
theorem parse_accepts_iff (text : String) :
    (∃ s, parse text = .ok s) ↔ IsSignatureText text.toList := by
  simp only [parse_eq_ok_iff, IsSignatureText, ← exists_returns_iff, ← exists_declares_iff]
  constructor
  · rintro ⟨s, inner, after, htext, hinner, hreturns, hparameters⟩
    exact ⟨inner, after, htext, hinner, ⟨_, hreturns⟩, ⟨_, hparameters⟩⟩
  · rintro ⟨inner, after, htext, hinner, ⟨returns, hreturns⟩, ⟨parameters, hparameters⟩⟩
    exact ⟨⟨parameters, returns⟩, inner, after, htext, hinner, hreturns, hparameters⟩

end ModuleSurface.Signature
