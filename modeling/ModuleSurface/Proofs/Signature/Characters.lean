import ModuleSurface.Proofs.Signature.Accepted
import ModuleSurface.Proofs.Signature.ReadBack
import ModuleSurface.Proofs.Text.Split

/-!
# Characters — a written signature has no characters but those it was read from, and marks

Reading takes parts of a text, and writing puts marks and blanks between them.  So a character that
is no mark and stands in the written form stood in the text already (`mem_of_mem_render`).
-/

namespace ModuleSurface.Signature

open Text (join mem_of_mem_trim)

/-- The characters that writing puts between the parts of a signature. -/
def marks : List Char :=
  ['(', ')', ',', ' ', '*', '/', ':', '=', '-', '>']

variable {c : Char}

/-! ## 1. Parameters -/

/-- Whether a character stands in the name, the annotation or the default of a parameter. -/
def Mentions (p : Parameter) (c : Char) : Prop :=
  c ∈ p.name.toList ∨ (∃ type ∈ p.annotation, c ∈ type.toList) ∨
    ∃ value ∈ p.default, c ∈ value.toList

theorem mentions_of_mem_render {p : Parameter} (h : c ∈ p.render.toList) (hmark : c ∉ marks) :
    Mentions p c := by
  have hstars : p.kind.stars.toList ⊆ marks := by cases p.kind <;> decide
  rw [Parameter.render, String.toList_append, List.mem_append, String.toList_append,
    List.mem_append] at h
  rcases h with (hmem | hname) | htail
  · exact absurd (hstars hmem) hmark
  · exact .inl hname
  · simp only [marks, List.mem_cons, List.not_mem_nil, or_false, not_or] at hmark
    cases htype : p.annotation <;> cases hvalue : p.default <;>
      simp [Parameter.renderTail, htype, hvalue, hmark] at htail
    · exact .inr (.inr ⟨_, hvalue, htail⟩)
    · exact .inr (.inl ⟨_, htype, htail⟩)
    · rcases htail with hmem | hmem
      · exact .inr (.inl ⟨_, htype, hmem⟩)
      · exact .inr (.inr ⟨_, hvalue, hmem⟩)

theorem mem_of_mem_kept {part : Option (List Char)} {mark : Char} {text : String}
    (htext : text ∈ (kept part).map String.ofList) (h : c ∈ text.toList) :
    c ∈ marked mark part := by
  obtain ⟨written, hwritten, rfl⟩ := Option.map_eq_some_iff.mp htext
  obtain ⟨-, whole, rfl, rfl⟩ := (kept_eq_some_iff part written).mp hwritten
  rw [String.toList_ofList] at h
  exact List.mem_cons_of_mem _ (mem_of_mem_trim h)

/-- What is read of a parameter stands in its slot. -/
theorem mem_of_readParameter {kind : ParameterKind} {body : List Char} {p : Parameter}
    (hbody : Nested body) (h : readParameter kind body = some p) (hc : Mentions p c) :
    c ∈ body := by
  obtain ⟨parts, rfl, hcut⟩ := exists_parts hbody
  rw [readParameter_text kind hcut] at h
  split at h
  · exact absurd h (by simp)
  obtain rfl := Option.some.inj h
  rw [Parts.text, List.mem_append, List.mem_append]
  rcases hc with hname | ⟨type, htype, hmem⟩ | ⟨value, hvalue, hmem⟩
  · rw [String.toList_ofList] at hname
    exact .inl (.inl (mem_of_mem_trim hname))
  · exact .inl (.inr (mem_of_mem_kept htype hmem))
  · exact .inr (mem_of_mem_kept hvalue hmem)

theorem mem_of_gives {slot : List Char} {p : Parameter} (hslot : Nested slot) (h : Gives slot p)
    (hc : Mentions p c) : c ∈ slot := by
  rw [h.stars, List.mem_append]
  exact .inr (mem_of_readParameter (nested_afterStars hslot) h.read hc)

/-! ## 2. Signatures -/

theorem mem_of_isSlots {inner slot : List Char} {slots : List (List Char)}
    (h : IsSlots inner slots) (hslot : slot ∈ slots) (hc : c ∈ slot) : c ∈ inner := by
  obtain ⟨pieces, -, rfl, -, rfl⟩ := h
  obtain ⟨piece, hpiece, rfl⟩ := List.mem_map.mp hslot
  exact Text.mem_join_of_mem hpiece (mem_of_mem_trim hc)

theorem mem_of_declares {inner : List Char} {parameters : List Parameter} {p : Parameter}
    (h : Declares inner parameters) (hp : p ∈ parameters) (hc : Mentions p c) : c ∈ inner := by
  rcases h with ⟨-, rfl⟩ | ⟨-, slots, hslots, last, hreads, rfl⟩
  · exact absurd hp List.not_mem_nil
  · have hgives := (Reading.accounts_start.run hreads).gives
    obtain ⟨slot, hslot, hslotGives⟩ := exists_of_forall₂ hgives p hp
    have hmem : slot ∈ slots := List.mem_of_mem_filter hslot
    exact mem_of_isSlots hslots hmem (mem_of_gives (hslots.nested slot hmem) hslotGives hc)

theorem mem_of_returns {after : List Char} {type : String} (h : Returns after (some type))
    (hc : c ∈ type.toList) : c ∈ after := by
  obtain ⟨whole, harrow, -, rfl⟩ := h
  rw [String.toList_ofList] at hc
  apply mem_of_mem_trim
  rw [harrow]
  simp [mem_of_mem_trim hc]

theorem mem_of_mem_slotTexts {inner slot : List Char} {parameters : List Parameter}
    (h : Declares inner parameters) (hslot : slot ∈ slotTexts parameters) (hc : c ∈ slot)
    (hmark : c ∉ marks) : c ∈ inner := by
  obtain ⟨written, hwritten, rfl⟩ := List.mem_map.mp hslot
  rcases mem_renderSlots hwritten with rfl | rfl | ⟨p, hp, rfl⟩
  · have hstar : "*".toList ⊆ marks := by decide
    exact absurd (hstar hc) hmark
  · have hslash : "/".toList ⊆ marks := by decide
    exact absurd (hslash hc) hmark
  · exact mem_of_declares h hp (mentions_of_mem_render hc hmark)

theorem mem_of_mem_renderReturns {after : List Char} {returns : Option String}
    (h : Returns after returns) (hc : c ∈ (renderReturns returns).toList) (hmark : c ∉ marks) :
    c ∈ after := by
  cases returns with
  | none => exact absurd hc List.not_mem_nil
  | some type =>
    have harrow : " -> ".toList ⊆ marks := by decide
    rw [renderReturns, String.toList_append, List.mem_append] at hc
    exact mem_of_returns h (hc.resolve_left fun hmem => hmark (harrow hmem))

/-- A character of the written form that is no mark stands in the text that was read. -/
theorem mem_of_mem_render {text : String} {s : Signature} (h : parse text = .ok s)
    (hc : c ∈ s.render.toList) (hmark : c ∉ marks) : c ∈ text.toList := by
  obtain ⟨inner, after, htext, -, hreturns, hdeclares⟩ := (parse_eq_ok_iff text s).mp h
  have hgap : [',', ' '] ⊆ marks := by decide
  apply mem_of_mem_trim
  rw [htext, List.cons_append, List.mem_cons, List.mem_append, List.mem_cons]
  rw [toList_render, ← Text.join_eq_intercalate, List.cons_append, List.mem_cons, List.mem_append,
    List.mem_cons] at hc
  rcases hc with hopen | hslots | hclose | htype
  · exact .inl hopen
  · obtain ⟨slot, hslot, hmem⟩ :=
      (Text.mem_join hslots).resolve_left fun hmem => hmark (hgap hmem)
    exact .inr (.inl (mem_of_mem_slotTexts hdeclares hslot hmem hmark))
  · exact .inr (.inr (.inl hclose))
  · exact .inr (.inr (.inr (mem_of_mem_renderReturns hreturns htype hmark)))

end ModuleSurface.Signature
