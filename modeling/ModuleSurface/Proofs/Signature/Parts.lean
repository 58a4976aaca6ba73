import ModuleSurface.Proofs.Signature.Cut
import ModuleSurface.Proofs.Text.Trim
import ModuleSurface.Signature.Parse

/-!
# Parts — the name, the annotation and the default in the text of a slot

Behind its stars a slot is a name, perhaps a colon and an annotation, and perhaps an equals sign
and a default.  Every nested text is cut into such parts (`exists_parts`), and reading a parameter
gives these parts without the blanks around them (`readParameter_text`).
-/

namespace ModuleSurface.Signature

open Nesting (start)
open Text (trim isBlank AllBlank exists_trim)

/-! ## 1. Blanks are ordinary characters -/

theorem isOrdinary_of_not_mem {c : Char}
    (h : c ∉ ['(', ')', '[', ']', '{', '}', '\'', '"']) : isOrdinary c = true := by
  simp only [List.mem_cons, List.not_mem_nil, or_false, not_or] at h
  have hopen : closer? c = none := by
    unfold closer?
    split <;> simp_all
  simp [isOrdinary, isQuote, isCloser, hopen, h]

theorem isOrdinary_of_isBlank {c : Char} (h : isBlank c = true) : isOrdinary c = true := by
  apply isOrdinary_of_not_mem
  intro hmem
  simp only [List.mem_cons, List.not_mem_nil, or_false] at hmem
  rcases hmem with rfl | rfl | rfl | rfl | rfl | rfl | rfl | rfl <;> exact absurd h (by decide)

theorem nested_of_allBlank {text : List Char} (h : AllBlank text) : Nested text := by
  induction text with
  | nil => exact .nil
  | cons c text ih =>
    exact .char (isOrdinary_of_isBlank (h c List.mem_cons_self))
      (ih fun d hd => h d (List.mem_cons_of_mem _ hd))

theorem nested_append_blank_iff {tail : List Char} (htail : AllBlank tail) (text : List Char) :
    Nested (text ++ tail) ↔ Nested text := by
  induction tail generalizing text with
  | nil => rw [List.append_nil]
  | cons c tail ih =>
    rw [List.append_cons, ih fun d hd => htail d (List.mem_cons_of_mem _ hd),
      nested_concat_iff (isOrdinary_of_isBlank (htail c List.mem_cons_self))]

theorem nested_trim_iff (text : List Char) : Nested (trim text) ↔ Nested text := by
  -- Blanks before a text are a nested text, and those behind it are taken off one by one.
  obtain ⟨lead, tail, htext, hlead, htail⟩ := exists_trim text
  conv_rhs => rw [htext, nested_append_blank_iff htail]
  have hnested := nested_of_allBlank hlead
  exact ⟨hnested.append, fun h => h.of_append hnested⟩

theorem OnTop.mem {c : Char} {text : List Char} (h : OnTop c text) : c ∈ text := by
  obtain ⟨before, after, rfl, -⟩ := h
  simp

theorem not_onTop_of_allBlank {c : Char} (hc : isBlank c = false) {text : List Char}
    (h : AllBlank text) : ¬ OnTop c text := by
  intro htop
  have := h c htop.mem
  rw [hc] at this
  exact absurd this (by decide)

theorem onTop_trim_iff {c : Char} (hc : isBlank c = false) {text : List Char}
    (h : Nested text) : OnTop c (trim text) ↔ OnTop c text := by
  obtain ⟨lead, tail, htext, hlead, htail⟩ := exists_trim text
  have hnested := nested_of_allBlank hlead
  have htrim := (nested_trim_iff text).mpr h
  conv_rhs => rw [htext, onTop_append_iff (hnested.append htrim), onTop_append_iff hnested]
  simp [not_onTop_of_allBlank hc hlead, not_onTop_of_allBlank hc htail]

/-! ## 2. The parts of a text -/

/-- A name, and what stands behind the colon and the equals sign, where there is one. -/
structure Parts where
  name : List Char
  type : Option (List Char)
  value : Option (List Char)

def marked (mark : Char) : Option (List Char) → List Char
  | none => []
  | some text => mark :: text

namespace Parts

def text (parts : Parts) : List Char :=
  parts.name ++ marked ':' parts.type ++ marked '=' parts.value

/-- Whether the marks between the parts are the first ones on top. -/
structure IsCut (parts : Parts) : Prop where
  name_nested : Nested parts.name
  name_free : ∀ mark ∈ [':', '='], ¬ OnTop mark parts.name
  type_nested : ∀ type ∈ parts.type, Nested type
  type_free : ∀ type ∈ parts.type, ¬ OnTop '=' type
  value_nested : ∀ value ∈ parts.value, Nested value

instance (parts : Parts) : Decidable parts.IsCut :=
  have : Decidable (∀ mark ∈ [':', '='], ¬ OnTop mark parts.name) := List.decidableBAll _ _
  decidable_of_iff
    (Nested parts.name ∧ (∀ mark ∈ [':', '='], ¬ OnTop mark parts.name) ∧
      (∀ type ∈ parts.type, Nested type) ∧ (∀ type ∈ parts.type, ¬ OnTop '=' type) ∧
      ∀ value ∈ parts.value, Nested value)
    ⟨fun ⟨hname, hfree, htype, htypeFree, hvalue⟩ => ⟨hname, hfree, htype, htypeFree, hvalue⟩,
      fun h => ⟨h.name_nested, h.name_free, h.type_nested, h.type_free, h.value_nested⟩⟩

end Parts

theorem nested_marked {mark : Char} (hmark : isOrdinary mark = true) {part : Option (List Char)}
    (h : ∀ text ∈ part, Nested text) : Nested (marked mark part) := by
  cases part with
  | none => exact .nil
  | some text => exact .char hmark (h text rfl)

theorem not_onTop_marked {c mark : Char} (hmark : isOrdinary mark = true) (hc : c ≠ mark)
    {part : Option (List Char)} (h : ∀ text ∈ part, ¬ OnTop c text) :
    ¬ OnTop c (marked mark part) := by
  cases part with
  | none => exact not_onTop_nil c
  | some text =>
    rw [marked, onTop_cons_iff hmark, not_or]
    exact ⟨hc, h text rfl⟩

theorem exists_marked (mark : Char) (hmark : isOrdinary mark = true) {text : List Char}
    (h : Nested text) :
    ∃ before part, text = before ++ marked mark part ∧ Nested before ∧ ¬ OnTop mark before ∧
      ∀ after ∈ part, Nested after := by
  by_cases htop : OnTop mark text
  · obtain ⟨before, after, rfl, hbefore, hfree⟩ := exists_first_onTop htop
    refine ⟨before, some after, rfl, hbefore, hfree, ?_⟩
    rintro _ ⟨⟩
    exact (nested_cons_iff hmark after).mp (h.of_append hbefore)
  · exact ⟨text, none, by simp [marked], h, htop, by simp⟩

theorem exists_parts {text : List Char} (h : Nested text) :
    ∃ parts : Parts, parts.text = text ∧ parts.IsCut := by
  -- The equals sign is looked for first, and the colon only in front of it.
  obtain ⟨head, value, rfl, hhead, hheadFree, hvalue⟩ := exists_marked '=' rfl h
  obtain ⟨name, type, rfl, hname, hnameFree, htype⟩ := exists_marked ':' rfl hhead
  rw [onTop_append_iff hname, not_or] at hheadFree
  refine ⟨⟨name, type, value⟩, rfl, hname, ?_, htype, ?_, hvalue⟩
  · intro mark hmark
    simp only [List.mem_cons, List.not_mem_nil, or_false] at hmark
    rcases hmark with rfl | rfl
    · exact hnameFree
    · exact hheadFree.1
  · rintro type ⟨⟩ htop
    refine hheadFree.2 ?_
    rw [marked, onTop_cons_iff rfl]
    exact .inr htop

namespace Parts.IsCut

variable {parts : Parts} (h : parts.IsCut)

include h

theorem head_nested : Nested (parts.name ++ marked ':' parts.type) :=
  h.name_nested.append (nested_marked rfl h.type_nested)

theorem head_free : ¬ OnTop '=' (parts.name ++ marked ':' parts.type) := by
  rw [onTop_append_iff h.name_nested, not_or]
  exact ⟨h.name_free '=' (by simp), not_onTop_marked rfl (by decide) h.type_free⟩

theorem text_nested : Nested parts.text :=
  h.head_nested.append (nested_marked rfl h.value_nested)

theorem onTop_text_iff (c : Char) :
    OnTop c parts.text ↔ OnTop c parts.name ∨ OnTop c (marked ':' parts.type) ∨
      OnTop c (marked '=' parts.value) := by
  rw [Parts.text, onTop_append_iff h.head_nested, onTop_append_iff h.name_nested, or_assoc]

end Parts.IsCut

/-! ## 3. Reading a parameter -/

/-- A part without the blanks around it; an empty one counts as none. -/
def kept : Option (List Char) → Option (List Char)
  | none => none
  | some text => if (trim text).isEmpty then none else some (trim text)

theorem kept_eq_some_iff (part : Option (List Char)) (text : List Char) :
    kept part = some text ↔ text ≠ [] ∧ ∃ whole, part = some whole ∧ trim whole = text := by
  cases part with
  | none => simp [kept]
  | some whole =>
    cases htrim : trim whole with
    | nil =>
      simp only [kept, htrim, List.isEmpty_nil, if_true, reduceCtorEq, Option.some.injEq,
        exists_eq_left', false_iff, not_and]
      exact fun hne heq => hne heq.symm
    | cons c more =>
      simp only [kept, htrim, List.isEmpty_cons, Bool.false_eq_true, if_false, Option.some.injEq,
        exists_eq_left']
      constructor
      · rintro rfl
        exact ⟨by simp, rfl⟩
      · rintro ⟨-, heq⟩
        exact heq

/-- Only what stands behind the mark is trimmed; a name is trimmed where it is read. -/
theorem cutTrimmed_marked {mark : Char} (hmark : isOrdinary mark = true) {before : List Char}
    (hbefore : Nested before) (hfree : ¬ OnTop mark before) (part : Option (List Char)) :
    cutTrimmed mark (before ++ marked mark part) = (before, kept part) := by
  cases part with
  | none =>
    rw [marked, List.append_nil, cutTrimmed, topCut_eq_none hfree]
    rfl
  | some after =>
    have hcut : topCut mark start (before ++ marked mark (some after)) = some (before, after) :=
      (topCut_eq_some_iff hmark _ _ _).mpr ⟨rfl, hbefore, hfree⟩
    rw [cutTrimmed, hcut]
    rfl

/-- Reading a parameter gives the parts of its text, and fails only for want of a name. -/
theorem readParameter_text (kind : ParameterKind) {parts : Parts} (h : parts.IsCut) :
    readParameter kind parts.text =
      if (trim parts.name).isEmpty then none
      else
        some
          { name := String.ofList (trim parts.name)
            kind
            annotation := (kept parts.type).map String.ofList
            default := (kept parts.value).map String.ofList } := by
  have hvalue : cutTrimmed '=' parts.text =
      (parts.name ++ marked ':' parts.type, kept parts.value) :=
    cutTrimmed_marked rfl h.head_nested h.head_free parts.value
  have htype : cutTrimmed ':' (parts.name ++ marked ':' parts.type) =
      (parts.name, kept parts.type) :=
    cutTrimmed_marked rfl h.name_nested (h.name_free ':' (by simp)) parts.type
  simp only [readParameter, hvalue, htype]

end ModuleSurface.Signature
