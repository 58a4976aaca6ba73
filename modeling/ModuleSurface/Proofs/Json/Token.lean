import ModuleSurface.Json.Skip
import ModuleSurface.Proofs.Json.Grammar
import ModuleSurface.Proofs.Json.WriteRead

/-!
# Token — the readers of string literals and numbers follow the grammar

A string literal of the grammar is read as the text that it spells (`readString_spells`), and is
read past as well (`skipString_spells`).  A number is read past to its end if something follows it
that may follow a value (`readNumberText_numeral`).
-/

namespace ModuleSurface.Json

open Piece (ofChars)

/-! ## 1. What stands around values -/

theorem isSpace_of_mem {c : Char} (h : c ∈ [' ', '\n', '\t', '\r']) :
    isSpace (.char c) = true := by
  simp only [List.mem_cons, List.not_mem_nil, or_false] at h
  rcases h with rfl | rfl | rfl | rfl <;> rfl

theorem IsGap.allSpace {gap : List Char} (h : IsGap gap) : AllSpace (ofChars gap) := by
  intro piece hpiece
  obtain ⟨c, hc, rfl⟩ := List.mem_map.mp hpiece
  exact isSpace_of_mem (h c hc)

def followers : List Char :=
  [' ', '\n', '\t', '\r', ',', ']', '}']

/-- Whether a text may follow a value: it is at its end, or goes on with a blank, a comma or a
closing bracket. -/
def Follows (rest : List Piece) : Prop :=
  ∀ piece, rest.head? = some piece → ∃ c ∈ followers, piece = .char c

theorem follows_nil : Follows [] :=
  fun _ h => absurd h (by simp)

theorem follows_cons {c : Char} (h : c ∈ followers) (rest : List Piece) :
    Follows (.char c :: rest) := by
  intro piece hpiece
  exact ⟨c, h, (Option.some.inj hpiece).symm⟩

theorem follows_gap {gap : List Char} (hgap : IsGap gap) {rest : List Piece}
    (hrest : Follows rest) : Follows (ofChars gap ++ rest) := by
  cases gap with
  | nil => exact hrest
  | cons c gap =>
    have hc := hgap c List.mem_cons_self
    exact follows_cons (List.mem_append_left [',', ']', '}'] hc) _

/-! ## 2. Escapes -/

theorem hexValue?_of_isHexDigit {n : Nat} {c : Char} (h : IsHexDigit n c) :
    hexValue? (.char c) = some n := by
  have hlower : ∀ n < 16, lowerHexDigits[n]?.bind (fun c => hexValue? (.char c)) = some n := by
    decide
  have hupper : ∀ n < 16, upperHexDigits[n]?.bind (fun c => hexValue? (.char c)) = some n := by
    decide
  rcases h with h | h
  · simpa [h] using hlower n (List.getElem?_eq_some_iff.mp h).1
  · simpa [h] using hupper n (List.getElem?_eq_some_iff.mp h).1

theorem readHex4_of_isHex4 {n : Nat} {digits : List Char} (h : IsHex4 n digits)
    (rest : List Piece) : readHex4 (ofChars digits ++ rest) = .ok (n, rest) := by
  obtain ⟨ha, hb, hc, hd⟩ := h
  show readHex4 (.char _ :: .char _ :: .char _ :: .char _ :: rest) = _
  simp only [readHex4, hexValue?_of_isHexDigit ha, hexValue?_of_isHexDigit hb,
    hexValue?_of_isHexDigit hc, hexValue?_of_isHexDigit hd]

theorem escapedChar?_of_mem {letter c : Char} (h : (letter, c) ∈ escapeLetters) :
    letter ≠ 'u' ∧ escapedChar? letter = some c := by
  simp only [escapeLetters, List.mem_cons, Prod.mk.injEq, List.not_mem_nil, or_false] at h
  rcases h with ⟨rfl, rfl⟩ | ⟨rfl, rfl⟩ | ⟨rfl, rfl⟩ | ⟨rfl, rfl⟩ | ⟨rfl, rfl⟩ | ⟨rfl, rfl⟩ |
    ⟨rfl, rfl⟩ | ⟨rfl, rfl⟩ <;> exact ⟨by decide, rfl⟩

theorem isLowSurrogate_eq_true_iff (n : Nat) :
    isLowSurrogate n = true ↔ 0xdc00 ≤ n ∧ n ≤ 0xdfff := by
  simp [isLowSurrogate]

theorem isHighSurrogate_eq_true_iff (n : Nat) :
    isHighSurrogate n = true ↔ 0xd800 ≤ n ∧ n ≤ 0xdbff := by
  simp [isHighSurrogate]

theorem readCodePoint_number {n : Nat} {digits : List Char} (hdigits : IsHex4 n digits)
    (hscalar : n < 0xd800 ∨ 0xdfff < n) (rest : List Piece) :
    readCodePoint (ofChars digits ++ rest) = .ok (Char.ofNat n, rest) := by
  have hlow : isLowSurrogate n = false := by
    rw [Bool.eq_false_iff, ne_eq, isLowSurrogate_eq_true_iff]
    omega
  have hhigh : isHighSurrogate n = false := by
    rw [Bool.eq_false_iff, ne_eq, isHighSurrogate_eq_true_iff]
    omega
  simp only [readCodePoint, readHex4_of_isHex4 hdigits, bind, Except.bind, hlow, hhigh,
    Bool.false_eq_true, if_false]
  rfl

theorem readCodePoint_pair {high low : Nat} {first second : List Char}
    (hfirst : IsHex4 high first) (hsecond : IsHex4 low second)
    (hhigh : 0xd800 ≤ high ∧ high ≤ 0xdbff) (hlow : 0xdc00 ≤ low ∧ low ≤ 0xdfff)
    (rest : List Piece) :
    readCodePoint (ofChars first ++ (.char '\\' :: .char 'u' :: (ofChars second ++ rest))) =
      .ok (Char.ofNat (0x10000 + (high - 0xd800) * 0x400 + (low - 0xdc00)), rest) := by
  have hfirstLow : isLowSurrogate high = false := by
    rw [Bool.eq_false_iff, ne_eq, isLowSurrogate_eq_true_iff]
    omega
  have hfirstHigh := (isHighSurrogate_eq_true_iff high).mpr hhigh
  have hsecondLow := (isLowSurrogate_eq_true_iff low).mpr hlow
  simp only [readCodePoint, readHex4_of_isHex4 hfirst, bind, Except.bind, hfirstLow, hfirstHigh,
    Bool.false_eq_true, if_false, if_true, readPairChar, readHex4_of_isHex4 hsecond, hsecondLow]
  rfl

/-! ## 3. String literals -/

theorem readStringPieces_spellsChar {c : Char} {written : List Char} (h : SpellsChar c written)
    (text : List Piece) :
    readStringPieces (ofChars written ++ text) = (readStringPieces text).map (prepend c) := by
  cases h with
  | plain hquote hescape hcontrol =>
    show readStringPieces (.char c :: text) = _
    rw [readStringPieces, if_neg hquote, if_neg hescape, if_neg]
    · rfl
    · simpa [isControl] using hcontrol
  | @letter letter _ hletter =>
    obtain ⟨hu, hescaped⟩ := escapedChar?_of_mem hletter
    refine readStringPieces_escape ?_
    show readEscape (.char letter :: text) = .ok (c, text)
    rw [readEscape, if_neg hu, hescaped]
  | @number n digits hdigits hscalar =>
    refine readStringPieces_escape ?_
    show readEscape (.char 'u' :: (ofChars digits ++ text)) = _
    rw [readEscape, if_pos rfl, readCodePoint_number hdigits hscalar]
  | @pair high low first second hfirst hsecond hhigh hlow =>
    refine readStringPieces_escape ?_
    show readEscape (.char 'u' :: (ofChars (first ++ '\\' :: 'u' :: second) ++ text)) = _
    rw [readEscape, if_pos rfl, ofChars_append, List.append_assoc]
    exact readCodePoint_pair hfirst hsecond hhigh hlow text

theorem readStringPieces_spells {content written : List Char} (h : Spells content written)
    (rest : List Piece) :
    readStringPieces (ofChars written ++ .char '"' :: rest) = .ok (ofChars content, rest) := by
  induction h with
  | nil =>
    show readStringPieces (.char '"' :: rest) = _
    rw [readStringPieces, if_pos rfl]
    rfl
  | cons hc _ ih =>
    rw [ofChars_append, List.append_assoc, readStringPieces_spellsChar hc, ih]
    rfl

/-- Behind its opening quote, a literal is read as the text that it spells. -/
theorem readString_spells {content written : List Char} (h : Spells content written)
    (rest : List Piece) :
    readString (ofChars written ++ .char '"' :: rest) = .ok (content, rest) := by
  simp only [readString, readStringPieces_spells h, bind, Except.bind, Piece.toChars?_ofChars]
  rfl

theorem skipString_escape {text rest : List Piece} (h : skipEscape text = .ok rest) :
    skipString (.char '\\' :: text) = skipString rest := by
  rw [skipString, if_neg (by decide), if_pos rfl]
  split
  · rename_i hfault
    rw [h] at hfault
    exact absurd hfault (by simp)
  · rename_i after hok
    rw [h, Except.ok.injEq] at hok
    rw [hok]

theorem skipEscape_number {n : Nat} {digits : List Char} (h : IsHex4 n digits)
    (rest : List Piece) : skipEscape (.char 'u' :: (ofChars digits ++ rest)) = .ok rest := by
  rw [skipEscape, if_pos rfl, readHex4_of_isHex4 h]
  rfl

theorem skipString_spellsChar {c : Char} {written : List Char} (h : SpellsChar c written)
    (text : List Piece) : skipString (ofChars written ++ text) = skipString text := by
  cases h with
  | plain hquote hescape hcontrol =>
    show skipString (.char c :: text) = _
    rw [skipString, if_neg hquote, if_neg hescape, if_neg]
    simpa [isControl] using hcontrol
  | @letter letter _ hletter =>
    obtain ⟨hu, hescaped⟩ := escapedChar?_of_mem hletter
    apply skipString_escape
    show skipEscape (.char letter :: text) = .ok text
    rw [skipEscape, if_neg hu, hescaped]
  | number hdigits _ => exact skipString_escape (skipEscape_number hdigits text)
  | @pair high low first second hfirst hsecond _ _ =>
    rw [ofChars_cons, ofChars_cons, ofChars_append, List.cons_append, List.cons_append,
      List.append_assoc, skipString_escape (skipEscape_number hfirst _)]
    exact skipString_escape (skipEscape_number hsecond text)

theorem skipString_spells {content written : List Char} (h : Spells content written)
    (rest : List Piece) : skipString (ofChars written ++ .char '"' :: rest) = .ok rest := by
  induction h with
  | nil =>
    show skipString (.char '"' :: rest) = _
    rw [skipString, if_pos rfl]
  | cons hc _ ih => rw [ofChars_append, List.append_assoc, skipString_spellsChar hc, ih]

/-! ## 4. Numbers -/

def EndsDigits (rest : List Piece) : Prop :=
  ∀ piece, rest.head? = some piece → digitValue? piece = none

theorem Follows.endsDigits {rest : List Piece} (h : Follows rest) : EndsDigits rest := by
  intro piece hpiece
  obtain ⟨c, hc, rfl⟩ := h piece hpiece
  simp only [followers, List.mem_cons, List.not_mem_nil, or_false] at hc
  rcases hc with rfl | rfl | rfl | rfl | rfl | rfl | rfl <;> rfl

theorem exists_digitValue {c : Char} (h : IsDigit c) :
    ∃ n, digitValue? (.char c) = some n ∧ (c ≠ '0' → n ≠ 0) := by
  refine ⟨c.toNat - 48, if_pos h, fun hne hzero => hne ?_⟩
  obtain ⟨hlow, -⟩ := h
  have hcode : 48 ≤ c.toNat := hlow
  apply Char.toNat_inj.mp
  show c.toNat = 48
  omega

theorem takeDigits_of_endsDigits {rest : List Piece} (h : EndsDigits rest) :
    takeDigits rest = ([], rest) := by
  cases rest with
  | nil => rfl
  | cons piece rest => simp only [takeDigits, h piece rfl]

theorem exists_takeDigits {text : List Char} (h : ∀ c ∈ text, IsDigit c) {rest : List Piece}
    (hrest : EndsDigits rest) :
    ∃ digits, digits.length = text.length ∧ takeDigits (ofChars text ++ rest) = (digits, rest) := by
  induction text with
  | nil => exact ⟨[], rfl, takeDigits_of_endsDigits hrest⟩
  | cons c text ih =>
    obtain ⟨digits, hlength, htake⟩ := ih fun d hd => h d (List.mem_cons_of_mem _ hd)
    obtain ⟨n, hn, -⟩ := exists_digitValue (h c List.mem_cons_self)
    refine ⟨n :: digits, by rw [List.length_cons, hlength, List.length_cons], ?_⟩
    rw [ofChars_cons, List.cons_append, takeDigits]
    simp only [hn, htake]

theorem exists_takeDigits_cons {text : List Char} (h : IsDigits text) {rest : List Piece}
    (hrest : EndsDigits rest) :
    ∃ digit digits, takeDigits (ofChars text ++ rest) = (digit :: digits, rest) := by
  obtain ⟨digits, hlength, htake⟩ := exists_takeDigits h.2 hrest
  cases digits with
  | nil => exact absurd (List.length_eq_zero_iff.mp hlength.symm) h.1
  | cons digit digits => exact ⟨digit, digits, htake⟩

theorem exists_readWhole {text : List Char} (h : IsWhole text) {rest : List Piece}
    (hrest : EndsDigits rest) :
    ∃ digits, readWhole false (ofChars text ++ rest) = .ok (digits, rest) := by
  cases h with
  | zero =>
    refine ⟨[0], ?_⟩
    show readWhole false (.char '0' :: rest) = _
    have hzero : digitValue? (.char '0') = some 0 := rfl
    simp [readWhole, hzero, takeDigits_of_endsDigits hrest]
  | @digits first more hfirst hzero hmore =>
    obtain ⟨n, hn, hne⟩ := exists_digitValue hfirst
    obtain ⟨digits, -, htake⟩ := exists_takeDigits hmore hrest
    refine ⟨n :: digits, ?_⟩
    rw [ofChars_cons, List.cons_append, readWhole]
    have hn0 := hne hzero
    cases n with
    | zero => exact absurd rfl hn0
    | succ n => simp only [hn, htake]

theorem exists_readFraction {text : List Char} (h : IsFraction text) {rest : List Piece}
    (hrest : EndsDigits rest) (hpoint : rest.head? ≠ some (.char '.')) :
    ∃ digits, readFraction false (ofChars text ++ rest) = .ok (digits, rest) := by
  cases h with
  | none =>
    refine ⟨[], ?_⟩
    rw [ofChars_nil, List.nil_append, readFraction]
    rintro tail rfl
    exact hpoint rfl
  | digits hdigits =>
    obtain ⟨digit, digits, htake⟩ := exists_takeDigits_cons hdigits hrest
    refine ⟨digit :: digits, ?_⟩
    rw [ofChars_cons, List.cons_append, readFraction]
    simp only [htake]

theorem exists_readExponentDigits {text : List Char} (h : IsDigits text) {rest : List Piece}
    (hrest : EndsDigits rest) (negative : Bool) :
    ∃ exponent,
      readExponentDigits false negative (ofChars text ++ rest) = .ok (exponent, rest) := by
  obtain ⟨digit, digits, htake⟩ := exists_takeDigits_cons h hrest
  refine ⟨some (negative, digit :: digits), ?_⟩
  rw [readExponentDigits]
  · simp only [htake]
  · intro hnil
    rw [List.append_eq_nil_iff] at hnil
    exact h.1 (List.map_eq_nil_iff.mp hnil.1)

theorem isExponentLetter_eq_false {c : Char} (h : c ∈ followers) :
    (c = 'e' || c = 'E') = false := by
  simp only [followers, List.mem_cons, List.not_mem_nil, or_false] at h
  rcases h with rfl | rfl | rfl | rfl | rfl | rfl | rfl <;> rfl

theorem exists_readExponent {text : List Char} (h : IsExponent text) {rest : List Piece}
    (hrest : Follows rest) :
    ∃ exponent, readExponent false (ofChars text ++ rest) = .ok (exponent, rest) := by
  cases h with
  | none =>
    refine ⟨.none, ?_⟩
    rw [ofChars_nil, List.nil_append]
    cases rest with
    | nil => rfl
    | cons piece rest =>
      obtain ⟨c, hc, rfl⟩ := hrest piece rfl
      unfold readExponent
      dsimp only
      rw [if_neg (by rw [isExponentLetter_eq_false hc]; exact Bool.false_ne_true)]
  | @digits letter sign digits hletter hsign hdigits =>
    have hexponent : (letter = 'e' || letter = 'E') = true := by simpa using hletter
    unfold readExponent
    rw [ofChars_cons, List.cons_append]
    dsimp only
    rw [if_pos hexponent]
    rcases hsign with rfl | rfl | rfl
    · obtain ⟨exponent, hread⟩ := exists_readExponentDigits hdigits hrest.endsDigits false
      obtain ⟨c, more, hcons⟩ := List.exists_cons_of_ne_nil hdigits.1
      have hc : IsDigit c := hdigits.2 c (by simp [hcons])
      -- a digit is no sign
      have hplus : c ≠ '+' := hc.ne (by decide)
      have hminus : c ≠ '-' := hc.ne (by decide)
      refine ⟨exponent, ?_⟩
      rw [List.nil_append, ← hread, hcons]
      split
      · rename_i hsign
        exact absurd (Piece.char.inj (List.cons.inj hsign).1) hplus
      · rename_i hsign
        exact absurd (Piece.char.inj (List.cons.inj hsign).1) hminus
      · rfl
    · exact exists_readExponentDigits hdigits hrest.endsDigits false
    · exact exists_readExponentDigits hdigits hrest.endsDigits true

theorem endsDigits_cons {c : Char} (h : digitValue? (.char c) = none) (rest : List Piece) :
    EndsDigits (.char c :: rest) := by
  intro piece hpiece
  rw [← Option.some.inj hpiece, h]

theorem head?_exponent {exponent : List Char} (h : IsExponent exponent) {rest : List Piece}
    (hrest : Follows rest) :
    EndsDigits (ofChars exponent ++ rest) ∧
      (ofChars exponent ++ rest).head? ≠ some (.char '.') := by
  cases h with
  | none =>
    refine ⟨hrest.endsDigits, fun hpoint => ?_⟩
    obtain ⟨c, hc, hcpoint⟩ := hrest _ hpoint
    rw [← Piece.char.inj hcpoint] at hc
    exact absurd hc (by decide)
  | digits hletter _ _ =>
    rcases hletter with rfl | rfl <;> exact ⟨endsDigits_cons rfl _, by simp [ofChars_cons]⟩

theorem endsDigits_fraction {fraction : List Char} (h : IsFraction fraction) {rest : List Piece}
    (hrest : EndsDigits rest) : EndsDigits (ofChars fraction ++ rest) := by
  cases h with
  | none => exact hrest
  | digits _ => exact endsDigits_cons rfl _

theorem exists_readNumberText {whole fraction exponent : List Char} (hwhole : IsWhole whole)
    (hfraction : IsFraction fraction) (hexponent : IsExponent exponent) {rest : List Piece}
    (hrest : Follows rest) :
    ∃ number, readNumberText false (ofChars (whole ++ (fraction ++ exponent)) ++ rest) =
      .ok (number, rest) := by
  obtain ⟨hdigits, hpoint⟩ := head?_exponent hexponent hrest
  obtain ⟨wholeDigits, hreadWhole⟩ :=
    exists_readWhole hwhole (endsDigits_fraction hfraction hdigits)
  obtain ⟨fractionDigits, hreadFraction⟩ := exists_readFraction hfraction hdigits hpoint
  obtain ⟨power, hreadExponent⟩ := exists_readExponent hexponent hrest
  refine ⟨⟨wholeDigits, fractionDigits, power⟩, ?_⟩
  simp only [readNumberText, ofChars_append, List.append_assoc, hreadWhole, hreadFraction,
    hreadExponent, bind, Except.bind]
  rfl

end ModuleSurface.Json
