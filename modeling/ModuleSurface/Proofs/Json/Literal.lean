import Mathlib.Tactic.SplitIfs
import ModuleSurface.Json.Scan
import ModuleSurface.Json.Value

/-!
# Literal — every text is read back from its string literal

The writer escapes a character in one of three ways or not at all, and the reader undoes each of
them, so that one character is read back from what is written for it
(`readStringPieces_literalChar`), and a whole text from its literal (`readString_literal`).
-/

namespace ModuleSurface.Json

open Piece (ofChars toChars?)

/-! ## 1. Pieces of written text -/

theorem ofChars_append (left right : List Char) :
    ofChars (left ++ right) = ofChars left ++ ofChars right :=
  List.map_append

theorem ofChars_cons (c : Char) (text : List Char) :
    ofChars (c :: text) = .char c :: ofChars text := rfl

@[simp] theorem ofChars_nil : ofChars [] = [] := rfl

/-! ## 2. Escapes -/

theorem hexValue?_hexDigit : ∀ n < 16, hexValue? (.char (hexDigit n)) = some n := by
  decide

theorem readEscape_control {c : Char} (hc : c.toNat < 0x20) (rest : List Piece) :
    readEscape (ofChars ['u', '0', '0', hexDigit (c.toNat / 16), hexDigit (c.toNat % 16)] ++ rest) =
      .ok (c, rest) := by
  have hhigh := hexValue?_hexDigit (c.toNat / 16) (by omega)
  have hlow := hexValue?_hexDigit (c.toNat % 16) (by omega)
  have hzero : hexValue? (.char '0') = some 0 := rfl
  have hvalue : ((0 * 16 + 0) * 16 + c.toNat / 16) * 16 + c.toNat % 16 = c.toNat := by omega
  have hhex : readHex4 (.char '0' :: .char '0' :: .char (hexDigit (c.toNat / 16)) ::
      .char (hexDigit (c.toNat % 16)) :: rest) = .ok (c.toNat, rest) := by
    simp only [readHex4, hzero, hhigh, hlow, hvalue]
  -- code points this small are no halves of a pair
  have hsecond : isLowSurrogate c.toNat = false := by
    simp only [isLowSurrogate, Bool.and_eq_false_iff, decide_eq_false_iff_not]
    omega
  have hfirst : isHighSurrogate c.toNat = false := by
    simp only [isHighSurrogate, Bool.and_eq_false_iff, decide_eq_false_iff_not]
    omega
  show readEscape (.char 'u' :: .char '0' :: .char '0' :: .char (hexDigit (c.toNat / 16)) ::
    .char (hexDigit (c.toNat % 16)) :: rest) = _
  rw [readEscape, if_pos rfl, readCodePoint]
  simp only [hhex, bind, Except.bind, hsecond, hfirst, Bool.false_eq_true, if_false, pure,
    Except.pure, Char.ofNat_toNat]

/-- A character is written as a letter behind a backslash, by its code point, or as itself. -/
theorem literalChar_cases (c : Char) :
    (∃ letter, literalChar c = ['\\', letter] ∧ letter ≠ 'u' ∧ escapedChar? letter = some c) ∨
      (c.toNat < 0x20 ∧ literalChar c =
        '\\' :: ['u', '0', '0', hexDigit (c.toNat / 16), hexDigit (c.toNat % 16)]) ∨
      (c ≠ '"' ∧ c ≠ '\\' ∧ ¬ c.toNat < 0x20 ∧ literalChar c = [c]) := by
  unfold literalChar
  split_ifs with hquote hescape hbackspace hfeed hline hreturn htab hcontrol
  · exact .inl ⟨'"', rfl, by decide, by rw [hquote]; rfl⟩
  · exact .inl ⟨'\\', rfl, by decide, by rw [hescape]; rfl⟩
  · exact .inl ⟨'b', rfl, by decide, by rw [hbackspace]; rfl⟩
  · exact .inl ⟨'f', rfl, by decide, by rw [hfeed]; rfl⟩
  · exact .inl ⟨'n', rfl, by decide, by rw [hline]; rfl⟩
  · exact .inl ⟨'r', rfl, by decide, by rw [hreturn]; rfl⟩
  · exact .inl ⟨'t', rfl, by decide, by rw [htab]; rfl⟩
  · exact .inr (.inl ⟨hcontrol, rfl⟩)
  · exact .inr (.inr ⟨hquote, hescape, hcontrol, rfl⟩)

/-! ## 3. Literals -/

def prepend (c : Char) (found : List Piece × List Piece) : List Piece × List Piece :=
  (.char c :: found.1, found.2)

theorem readStringPieces_escape {c : Char} {text rest : List Piece}
    (h : readEscape text = .ok (c, rest)) :
    readStringPieces (.char '\\' :: text) = (readStringPieces rest).map (prepend c) := by
  rw [readStringPieces, if_neg (by decide), if_pos rfl]
  split
  · rename_i hfault
    rw [h] at hfault
    exact absurd hfault (by simp)
  · rename_i escaped after hok
    rw [h, Except.ok.injEq, Prod.mk.injEq] at hok
    obtain ⟨rfl, rfl⟩ := hok
    rfl

theorem readStringPieces_literalChar (c : Char) (text : List Piece) :
    readStringPieces (ofChars (literalChar c) ++ text) =
      (readStringPieces text).map (prepend c) := by
  -- one equation of the reader for each way of writing
  rcases literalChar_cases c with ⟨letter, hchars, hletter, hescaped⟩ | ⟨hcontrol, hchars⟩ |
    ⟨hquote, hescape, hcontrol, hchars⟩ <;> rw [hchars]
  · refine readStringPieces_escape ?_
    show readEscape (.char letter :: text) = .ok (c, text)
    rw [readEscape, if_neg hletter, hescaped]
  · exact readStringPieces_escape (readEscape_control hcontrol text)
  · show readStringPieces (.char c :: text) = _
    rw [readStringPieces, if_neg hquote, if_neg hescape, if_neg]
    · rfl
    · simpa [isControl] using hcontrol

theorem readStringPieces_flatMap (content : List Char) (rest : List Piece) :
    readStringPieces (ofChars (content.flatMap literalChar) ++ .char '"' :: rest) =
      .ok (ofChars content, rest) := by
  induction content with
  | nil =>
    show readStringPieces (.char '"' :: rest) = _
    rw [readStringPieces, if_pos rfl]
    rfl
  | cons c content ih =>
    rw [List.flatMap_cons, ofChars_append, List.append_assoc, readStringPieces_literalChar, ih]
    rfl

/-- Behind its opening quote, a literal is read as the text that it was written for. -/
theorem readString_literal (content : List Char) (rest : List Piece) :
    readString (ofChars (content.flatMap literalChar) ++ .char '"' :: rest) =
      .ok (content, rest) := by
  simp only [readString, readStringPieces_flatMap, bind, Except.bind, Piece.toChars?_ofChars]
  rfl

theorem ofChars_literal (content : List Char) (rest : List Piece) :
    ofChars (literal content) ++ rest =
      .char '"' :: (ofChars (content.flatMap literalChar) ++ .char '"' :: rest) := by
  rw [literal, List.cons_append, ofChars_cons, ofChars_append, List.cons_append, List.append_assoc]
  rfl

end ModuleSurface.Json
