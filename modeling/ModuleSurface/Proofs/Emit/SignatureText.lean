import ModuleSurface.Emit.SignatureText
import ModuleSurface.Proofs.Signature.Stable

/-!
# SignatureText — the text that follows the name of a function is its own signature text

A text that is emitted may be fed in again as the signature of the same function.  It may then be
read as another signature, or not at all and so be passed on as it is, but the text that comes out
is the same (`Symbol.signatureText_signatureText`).
-/

namespace ModuleSurface

/-! ## 1. The three texts -/

namespace Symbol

variable {symbol : Symbol}

theorem hasSig_iff : symbol.hasSig = true ↔ symbol.sig ≠ "" := by
  rw [hasSig, bne_iff_ne]

theorem signatureText_of_empty (h : symbol.sig = "") :
    symbol.signatureText.value = unknownSignature := by
  rw [signatureText, if_neg (by rw [hasSig_iff, not_not]; exact h)]
  rfl

theorem signatureText_of_ok {s : Signature} (h : Signature.parse symbol.sig = .ok s) :
    symbol.signatureText.value = s.render := by
  have hne : symbol.sig ≠ "" := by
    intro hempty
    have hfault : Signature.parse "" = .error (.missingParen "") := by rfl
    rw [hempty, hfault] at h
    exact absurd h (by simp)
  rw [signatureText, if_pos (hasSig_iff.mpr hne), h]
  rfl

theorem signatureText_of_error {fault : SignatureFault} (hne : symbol.sig ≠ "")
    (h : Signature.parse symbol.sig = .error fault) : symbol.signatureText.value = symbol.sig := by
  rw [signatureText, if_pos (hasSig_iff.mpr hne), h]
  rfl

end Symbol

/-! ## 2. The text as a signature -/

theorem render_of_parse_unknownSignature {s : Signature}
    (h : Signature.parse unknownSignature = .ok s) : s.render = unknownSignature := by
  have hparse : Signature.parse unknownSignature =
      .ok ⟨[⟨"args", .varPositional, none, none⟩, ⟨"kwargs", .varKeyword, none, none⟩], none⟩ := by
    rfl
  rw [hparse, Except.ok.injEq] at h
  rw [← h]
  decide

theorem Signature.render_ne_empty (s : Signature) : s.render ≠ "" := by
  rw [← String.toList_inj.ne, s.toList_render]
  exact List.cons_ne_nil _ _

namespace Symbol

/-- Where the text can be read as a signature, it is the one that is written for it. -/
theorem render_of_parse_signatureText {symbol : Symbol}
    (hspaced : ∀ s, Signature.parse symbol.sig = .ok s → ∀ p ∈ s.parameters, ¬ p.HasSpacedStar)
    {other : Signature} (h : Signature.parse symbol.signatureText.value = .ok other) :
    other.render = symbol.signatureText.value := by
  by_cases hempty : symbol.sig = ""
  · rw [signatureText_of_empty hempty] at h ⊢
    exact render_of_parse_unknownSignature h
  cases hparse : Signature.parse symbol.sig with
  | error fault =>
    -- the text is that of the symbol, and it cannot be read
    rw [signatureText_of_error hempty hparse, hparse] at h
    exact absurd h (by simp)
  | ok s =>
    rw [signatureText_of_ok hparse] at h ⊢
    exact (Signature.accepted_of_parse hparse).render_of_parse_render (hspaced s hparse) h

theorem signatureText_ne_empty (symbol : Symbol) : symbol.signatureText.value ≠ "" := by
  by_cases hempty : symbol.sig = ""
  · rw [signatureText_of_empty hempty]
    decide
  cases hparse : Signature.parse symbol.sig with
  | error fault => rwa [signatureText_of_error hempty hparse]
  | ok s =>
    rw [signatureText_of_ok hparse]
    exact s.render_ne_empty

/-! ## 3. A second time -/

/-- A signature text is kept if it is the written form of whatever it is read as. -/
theorem signatureText_eq_sig (symbol : Symbol) (hne : symbol.sig ≠ "")
    (h : ∀ s, Signature.parse symbol.sig = .ok s → s.render = symbol.sig) :
    symbol.signatureText.value = symbol.sig := by
  cases hparse : Signature.parse symbol.sig with
  | error fault => exact signatureText_of_error hne hparse
  | ok s => rw [signatureText_of_ok hparse, h s hparse]

/-- The text behind the name of a function is kept when it takes the place of the signature, unless
the name of a star parameter is a star and a blank. -/
theorem signatureText_signatureText (symbol : Symbol)
    (hspaced : ∀ s, Signature.parse symbol.sig = .ok s → ∀ p ∈ s.parameters, ¬ p.HasSpacedStar) :
    (signatureText { symbol with sig := symbol.signatureText.value }).value =
      symbol.signatureText.value := by
  apply signatureText_eq_sig { symbol with sig := symbol.signatureText.value }
  · exact symbol.signatureText_ne_empty
  · intro other h
    exact render_of_parse_signatureText hspaced h

def sampleOf (sig : String) : Symbol :=
  ⟨"call", .function, "", sig, by decide⟩

/-- The text is kept where it is read as another signature, for want of the lone star, and where it
cannot be read, since two stars have no name behind them. -/
theorem signatureText_lateSample :
    (∀ sig ∈ ["(*, a, *args)", "(* *)"], ∀ s, Signature.parse (sampleOf sig).sig = .ok s →
        ∀ p ∈ s.parameters, ¬ p.HasSpacedStar) ∧
      (sampleOf "(*, a, *args)").signatureText.value = "(a, *args)" ∧
      (sampleOf "(a, *args)").signatureText.value = "(a, *args)" ∧
      (sampleOf "(* *)").signatureText.value = "(**)" ∧
      (sampleOf "(**)").signatureText.value = "(**)" := by
  have hspaced : ∀ sig ∈ ["(*, a, *args)", "(* *)"], ∀ s,
      Signature.parse (sampleOf sig).sig = .ok s → ∀ p ∈ s.parameters, ¬ p.HasSpacedStar := by
    have hlate : Signature.parse (sampleOf "(*, a, *args)").sig = .ok Signature.lateSample := by rfl
    have hbare : Signature.parse (sampleOf "(* *)").sig =
        .ok ⟨[⟨"*", .varPositional, none, none⟩], none⟩ := by rfl
    rw [List.forall_mem_cons, List.forall_mem_singleton, hlate, hbare]
    simp [Signature.lateSample, Parameter.HasSpacedStar]
  have hlate : (sampleOf "(*, a, *args)").signatureText.value = "(a, *args)" := by rfl
  have hbare : (sampleOf "(* *)").signatureText.value = "(**)" := by rfl
  have hlate' := signatureText_signatureText (sampleOf "(*, a, *args)") (hspaced _ (by simp))
  have hbare' := signatureText_signatureText (sampleOf "(* *)") (hspaced _ (by simp))
  rw [hlate] at hlate'
  rw [hbare] at hbare'
  exact ⟨hspaced, hlate, hlate', hbare, hbare'⟩

/-- The blank behind the second star is lost when the text is read again. -/
example :
    (Signature.parse "(* * x)").toOption.map (·.render) = some "(** x)" ∧
      (Signature.parse "(** x)").toOption.map (·.render) = some "(**x)" :=
  ⟨rfl, rfl⟩

end Symbol

end ModuleSurface
