import ModuleSurface.Proofs.Signature.Arrangement

/-!
# RoundTrip — a well-formed signature is read back from its written form

Well-formed means that the parameters stand in the order that the markers can tell, that every
part is read back as it is written, and that no parameter looks like a marker or like one with
other stars.
-/

namespace ModuleSurface.Signature

/-- Whether a signature is one that its written form stands for. -/
structure WellFormed (s : Signature) : Prop where
  arranged : ∃ a : Arrangement, a.parameters = s.parameters ∧ a.IsOrdered ∧ a.StarFirst
  written : ∀ p ∈ s.parameters, p.IsWritten
  clear : ∀ p ∈ s.parameters, p.IsClear
  returns : ∀ type ∈ s.returns, IsReturn type

theorem WellFormed.exists_reads {s : Signature} (h : s.WellFormed) :
    ∃ last, Reading.start.Reads (slotTexts s.parameters) last ∧
      s.parameters = last.parameters := by
  obtain ⟨a, hparameters, hordered, hfirst⟩ := h.arranged
  have hwritten := h.written
  have hclear := h.clear
  rw [← hparameters] at hwritten hclear ⊢
  exact hordered.exists_reads_slotTexts hwritten hclear hfirst

/-- Parsing the written form of a well-formed signature gives the signature. -/
theorem parse_render (s : Signature) (h : s.WellFormed) : parse s.render = .ok s :=
  (parse_render_iff h.written h.returns s).mpr ⟨rfl, h.exists_reads⟩

def sample : Arrangement where
  positional :=
    [⟨"a", .positionalOnly, some "Map[int, ')']", none⟩, ⟨"b", .positionalOnly, none, none⟩]
  ordinary := [⟨"c", .positionalOrKeyword, none, some "'\\', ='"⟩]
  starred :=
    [⟨"args", .varPositional, some "int", none⟩,
      ⟨"é", .keywordOnly, some "str", some "('k', \"=\")"⟩, ⟨"more", .varPositional, none, none⟩]
  closing := [⟨"*rest", .varKeyword, none, none⟩]

theorem parse_render_sample :
    WellFormed ⟨sample.parameters, some "(int"⟩ ∧
      parse (render ⟨sample.parameters, some "(int"⟩) = .ok ⟨sample.parameters, some "(int"⟩ := by
  have h : WellFormed ⟨sample.parameters, some "(int"⟩ :=
    { arranged := ⟨sample, rfl, by decide, by decide⟩
      written := by decide
      clear := by decide
      returns := by decide }
  exact ⟨h, parse_render _ h⟩

end ModuleSurface.Signature
