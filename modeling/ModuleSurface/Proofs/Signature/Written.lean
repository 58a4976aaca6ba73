import ModuleSurface.Proofs.Signature.Slots

/-!
# Written — the written form of a parameter is the text of a slot

A parameter whose parts can stand in a slot is written as one piece between commas, without
blanks at its ends (`isPiece_render`, `trim_render`).  Reading the text behind the stars gives the
parameter again, with whatever kind the slot says (`readParameter_partsText`).
-/

namespace ModuleSurface

open Signature (Nested OnTop Parts marked kept IsPiece readParameter Slot nested_cons_iff
  onTop_cons_iff onTop_append_iff nested_of_allBlank nested_append_blank_iff not_onTop_of_allBlank
  not_onTop_marked ofText_plain ofText_varPositional readParameter_text)
open Text (trim isBlank AllBlank allBlank_nil allBlank_space trim_append_left trim_append_right
  trim_eq_self_of_ends)

/-! ## 1. Parts that are read back as they are written -/

/-- Whether a text can be a part of a slot that the given marks would end. -/
structure IsPart (marks text : List Char) : Prop where
  ne_nil : text ≠ []
  trimmed : trim text = text
  nested : Nested text
  free : ∀ mark ∈ marks, ¬ OnTop mark text

instance (marks text : List Char) : Decidable (IsPart marks text) :=
  decidable_of_iff
    (text ≠ [] ∧ trim text = text ∧ Nested text ∧ marks.all (¬ OnTop · text) = true)
    ⟨fun ⟨hne, htrimmed, hnested, hfree⟩ => ⟨hne, htrimmed, hnested, by simpa using hfree⟩,
      fun h => ⟨h.ne_nil, h.trimmed, h.nested, by simpa using h.free⟩⟩

def between (lead tail : List Char) (text : String) : List Char :=
  lead ++ text.toList ++ tail

section Between

variable {marks lead tail : List Char} {part : Option String} (hlead : AllBlank lead)
  (htail : AllBlank tail) (h : ∀ text ∈ part, IsPart marks text.toList)

include hlead htail h

theorem nested_between : ∀ whole ∈ part.map (between lead tail), Nested whole := by
  intro whole hwhole
  obtain ⟨text, htext, rfl⟩ := Option.map_eq_some_iff.mp hwhole
  unfold between
  rw [nested_append_blank_iff htail]
  exact (nested_of_allBlank hlead).append (h text htext).nested

/-- Blanks put no mark on top. -/
theorem not_onTop_between (mark : Char) (hmark : mark ∈ marks) (hblank : isBlank mark = false) :
    ∀ whole ∈ part.map (between lead tail), ¬ OnTop mark whole := by
  intro whole hwhole
  obtain ⟨text, htext, rfl⟩ := Option.map_eq_some_iff.mp hwhole
  have hnested := nested_of_allBlank hlead
  have htop := (h text htext).free mark hmark
  unfold between
  rw [onTop_append_iff (hnested.append (h text htext).nested), onTop_append_iff hnested]
  simp [htop, not_onTop_of_allBlank hblank hlead, not_onTop_of_allBlank hblank htail]

/-- Reading takes the blanks off again. -/
theorem kept_between : (kept (part.map (between lead tail))).map String.ofList = part := by
  cases hpart : part with
  | none => rfl
  | some text =>
    have htext := h text hpart
    have htrim : trim (between lead tail text) = text.toList := by
      unfold between
      rw [trim_append_right htail, trim_append_left hlead, htext.trimmed]
    rw [Option.map_some, kept, htrim, if_neg (by simpa using htext.ne_nil), Option.map_some,
      String.ofList_toList]

end Between

/-! ## 2. Parameters -/

/-- Whether the name, the annotation and the default of a parameter can be parts of a slot. -/
structure Parameter.IsWritten (p : Parameter) : Prop where
  name : IsPart [',', ':', '='] p.name.toList
  annotation : ∀ type ∈ p.annotation, IsPart [',', '='] type.toList
  default : ∀ value ∈ p.default, IsPart [','] value.toList

namespace Parameter

instance (p : Parameter) : Decidable p.IsWritten :=
  decidable_of_iff
    (IsPart [',', ':', '='] p.name.toList ∧ (∀ type ∈ p.annotation, IsPart [',', '='] type.toList) ∧
      ∀ value ∈ p.default, IsPart [','] value.toList)
    ⟨fun ⟨hname, htype, hvalue⟩ => ⟨hname, htype, hvalue⟩,
      fun h => ⟨h.name, h.annotation, h.default⟩⟩

/-- The blank that stands beside a mark when both the annotation and the default are there. -/
def gap (other : Option String) : List Char :=
  if other.isSome then [' '] else []

theorem allBlank_gap (other : Option String) : AllBlank (gap other) := by
  unfold gap
  split
  · exact allBlank_space
  · exact allBlank_nil

def parts (p : Parameter) : Parts where
  name := p.name.toList
  type := p.annotation.map (between [' '] (gap p.default))
  value := p.default.map (between (gap p.annotation) [])

theorem toList_render (p : Parameter) :
    p.render.toList = p.kind.stars.toList ++ p.parts.text := by
  rw [render, String.toList_append, String.toList_append, List.append_assoc]
  congr 1
  cases htype : p.annotation <;> cases hvalue : p.default <;>
    simp [renderTail, Parts.text, parts, marked, between, gap, htype, hvalue]

/-- The written form behind the stars ends with the last part that is there. -/
def lastPart (p : Parameter) : List Char :=
  match p.default, p.annotation with
  | some value, _ => value.toList
  | none, some type => type.toList
  | none, none => p.name.toList

theorem exists_text_eq (p : Parameter) : ∃ front, p.parts.text = front ++ p.lastPart := by
  rw [Parts.text, parts, lastPart]
  cases hvalue : p.default with
  | some value =>
    refine ⟨p.name.toList ++ marked ':' (p.annotation.map (between [' '] (gap (some value)))) ++
      '=' :: gap p.annotation, ?_⟩
    simp [marked, between]
  | none =>
    cases p.annotation with
    | some type => exact ⟨p.name.toList ++ [':', ' '], by simp [marked, between, gap]⟩
    | none => exact ⟨[], by simp [marked]⟩

namespace IsWritten

variable {p : Parameter} (h : p.IsWritten)

include h

theorem isCut : p.parts.IsCut where
  name_nested := h.name.nested
  name_free mark hmark := h.name.free mark (List.mem_cons_of_mem _ hmark)
  type_nested := nested_between allBlank_space (allBlank_gap p.default) h.annotation
  type_free :=
    not_onTop_between allBlank_space (allBlank_gap p.default) h.annotation '=' (by simp) (by decide)
  value_nested := nested_between (allBlank_gap p.annotation) allBlank_nil h.default

/-- Reading the text behind the stars gives the parameter, with the kind that is asked for. -/
theorem readParameter_partsText (kind : ParameterKind) :
    readParameter kind p.parts.text = some { p with kind } := by
  -- reading trims each of the parts, and what trimming leaves is what was written
  have hname : trim p.parts.name = p.name.toList := h.name.trimmed
  have htype : (kept p.parts.type).map String.ofList = p.annotation :=
    kept_between allBlank_space (allBlank_gap p.default) h.annotation
  have hvalue : (kept p.parts.value).map String.ofList = p.default :=
    kept_between (allBlank_gap p.annotation) allBlank_nil h.default
  rw [readParameter_text kind h.isCut, hname, if_neg (by simpa using h.name.ne_nil),
    String.ofList_toList, htype, hvalue]

theorem not_onTop_comma : ¬ OnTop ',' p.parts.text := by
  have htype := not_onTop_between allBlank_space (allBlank_gap p.default) h.annotation ','
    (by simp) (by decide)
  have hvalue := not_onTop_between (allBlank_gap p.annotation) allBlank_nil h.default ','
    (by simp) (by decide)
  rw [h.isCut.onTop_text_iff, not_or, not_or]
  exact ⟨h.name.free ',' (by simp), not_onTop_marked rfl (by decide) htype,
    not_onTop_marked rfl (by decide) hvalue⟩

theorem lastPart_isPart : ∃ marks, IsPart marks p.lastPart := by
  rw [lastPart]
  cases hvalue : p.default with
  | some value => exact ⟨_, h.default value hvalue⟩
  | none =>
    cases htype : p.annotation with
    | some type => exact ⟨_, h.annotation type htype⟩
    | none => exact ⟨_, h.name⟩

/-- The written form is a piece of a text that is cut at commas. -/
theorem isPiece_render : IsPiece ',' p.render.toList := by
  have hstar : ∀ {text : List Char}, IsPiece ',' text → IsPiece ',' ('*' :: text) := by
    intro text htext
    refine ⟨(nested_cons_iff rfl text).mpr htext.1, ?_⟩
    rw [onTop_cons_iff rfl, not_or]
    exact ⟨by decide, htext.2⟩
  have htext : IsPiece ',' p.parts.text := ⟨h.isCut.text_nested, h.not_onTop_comma⟩
  rw [toList_render]
  -- stars are no commas and open nothing, so that they may stand before any piece
  cases p.kind with
  | varPositional => exact hstar htext
  | varKeyword => exact hstar (hstar htext)
  | _ => exact htext

theorem render_ne_nil : p.render.toList ≠ [] := by
  rw [toList_render, Parts.text, parts]
  simp [h.name.ne_nil]

/-- The written form has no blanks at its ends. -/
theorem trim_render : trim p.render.toList = p.render.toList := by
  obtain ⟨front, hfront⟩ := p.exists_text_eq
  obtain ⟨marks, hlast⟩ := h.lastPart_isPart
  -- the first text is the stars, or else the name
  obtain ⟨left, hleft, htrimmed, hne⟩ : ∃ left,
      left <+: p.render.toList ∧ trim left = left ∧ left ≠ [] := by
    rw [toList_render]
    cases p.kind with
    | varPositional => exact ⟨['*'], ⟨p.parts.text, rfl⟩, by decide, by decide⟩
    | varKeyword => exact ⟨['*', '*'], ⟨p.parts.text, rfl⟩, by decide, by decide⟩
    | _ =>
      refine ⟨p.name.toList, ⟨marked ':' p.parts.type ++ marked '=' p.parts.value, ?_⟩,
        h.name.trimmed, h.name.ne_nil⟩
      rw [Parts.text, List.append_assoc]
      rfl
  refine trim_eq_self_of_ends htrimmed hlast.trimmed hne hlast.ne_nil hleft
    ⟨p.kind.stars.toList ++ front, ?_⟩
  rw [toList_render, hfront, List.append_assoc]

end IsWritten

/-! ## 3. The slot that a written parameter is -/

/-- Whether the written form of a parameter without stars is that of the slash. -/
def LooksLikeSlash (p : Parameter) : Prop :=
  p.name = "/" ∧ p.annotation = none ∧ p.default = none

instance (p : Parameter) : Decidable p.LooksLikeSlash :=
  inferInstanceAs (Decidable (_ ∧ _ ∧ _))

/-- Whether the slot that the parameter is written as is read with its own stars, and as a
parameter. -/
structure IsClear (p : Parameter) : Prop where
  star : p.kind ≠ .varKeyword → ¬ ['*'] <+: p.name.toList
  slash : p.kind.isVariadic = false → ¬ p.LooksLikeSlash

instance (p : Parameter) : Decidable p.IsClear :=
  decidable_of_iff
    ((p.kind ≠ .varKeyword → ¬ ['*'] <+: p.name.toList) ∧
      (p.kind.isVariadic = false → ¬ p.LooksLikeSlash))
    ⟨fun ⟨hstar, hslash⟩ => ⟨hstar, hslash⟩, fun h => ⟨h.star, h.slash⟩⟩

theorem star_prefix_partsText_iff {p : Parameter} (hname : p.name.toList ≠ []) :
    ['*'] <+: p.parts.text ↔ ['*'] <+: p.name.toList := by
  rw [Parts.text, parts, List.append_assoc]
  cases hchars : p.name.toList with
  | nil => exact absurd hchars hname
  | cons c more => simp

theorem partsText_eq_slash_iff {p : Parameter} (hname : p.name.toList ≠ []) :
    p.parts.text = ['/'] ↔ p.LooksLikeSlash := by
  rw [LooksLikeSlash, ← String.toList_inj, parts]
  cases hchars : p.name.toList with
  | nil => exact absurd hchars hname
  | cons c more =>
    cases p.annotation <;> cases p.default <;> simp [Parts.text, marked, between]

def slot (p : Parameter) : Slot :=
  match p.kind with
  | .varPositional => .varPositional p.parts.text
  | .varKeyword => .varKeyword p.parts.text
  | _ => .plain p.parts.text

theorem IsClear.ofText_render {p : Parameter} (hclear : p.IsClear) (h : p.IsWritten) :
    Slot.ofText p.render.toList = p.slot := by
  have hne : p.parts.text ≠ [] := by
    rw [Parts.text, parts]
    simp [h.name.ne_nil]
  have hstar : p.kind ≠ .varKeyword → ¬ ['*'] <+: p.parts.text := by
    rw [star_prefix_partsText_iff h.name.ne_nil]
    exact hclear.star
  have hslash : p.kind.isVariadic = false → p.parts.text ≠ ['/'] := by
    rw [ne_eq, partsText_eq_slash_iff h.name.ne_nil]
    exact hclear.slash
  rw [toList_render, slot]
  -- two stars are taken off whatever follows, one star only where no other follows
  cases hkind : p.kind with
  | varKeyword => rfl
  | varPositional =>
    rw [hkind] at hstar
    exact ofText_varPositional hne (hstar (by decide))
  | _ =>
    rw [hkind] at hstar hslash
    exact ofText_plain hne (hslash rfl) (hstar (by decide))

end Parameter

end ModuleSurface
