import ModuleSurface.Json.Number

/-!
# Scan — blanks, words and string literals of documents

A wanted string literal gives its characters.  One that nobody wants is only read past: its
escapes need not name a character, and its bytes need not encode any.
-/

namespace ModuleSurface.Json

/-! ## 1. Blanks and words -/

/-- The characters that may stand between the tokens of a document. -/
def isSpace : Piece → Bool
  | .char c => c == ' ' || c == '\n' || c == '\t' || c == '\r'
  | .stray _ => false

def skipBlank (text : List Piece) : List Piece :=
  text.dropWhile isSpace

def readWord : List Char → List Piece → Except Fault (List Piece)
  | [], text => .ok text
  | _ :: _, [] => .error (.ended .value)
  | c :: cs, piece :: rest =>
      if piece = .char c then readWord cs rest else .error (.next .misspeltWord (piece :: rest))

/-! ## 2. Escapes -/

def escapedChar? : Char → Option Char
  | '"' => some '"'
  | '\\' => some '\\'
  | '/' => some '/'
  | 'b' => some '\x08'
  | 'f' => some '\x0c'
  | 'n' => some '\n'
  | 'r' => some '\r'
  | 't' => some '\t'
  | _ => none

def hexValue? : Piece → Option Nat
  | .char c =>
      if '0' ≤ c ∧ c ≤ '9' then some (c.toNat - 48)
      else if 'a' ≤ c ∧ c ≤ 'f' then some (c.toNat - 87)
      else if 'A' ≤ c ∧ c ≤ 'F' then some (c.toNat - 55)
      else none
  | .stray _ => none

/-- The fault of an escape that lacks four hexadecimal digits. -/
def hexFault (text : List Piece) : Fault :=
  if Piece.widths text < 4 then .ended .string else .placed .invalidEscape text 4

def readHex4 : Reader Nat
  | a :: b :: c :: d :: rest =>
      match hexValue? a, hexValue? b, hexValue? c, hexValue? d with
      | some a, some b, some c, some d => .ok (((a * 16 + b) * 16 + c) * 16 + d, rest)
      | _, _, _, _ => .error (hexFault (a :: b :: c :: d :: rest))
  | text => .error (hexFault text)

def isLowSurrogate (n : Nat) : Bool :=
  0xdc00 ≤ n && n ≤ 0xdfff

def isHighSurrogate (n : Nat) : Bool :=
  0xd800 ≤ n && n ≤ 0xdbff

/-- Reads past the given character, which begins the second half of a surrogate pair. -/
def readPairChar (c : Char) : List Piece → Except Fault (List Piece)
  | [] => .error (.ended .string)
  | piece :: rest =>
      if piece = .char c then .ok rest else .error (.next .unfinishedEscape (piece :: rest))

/-- The character of an escape by code point, behind its letter; two escapes make up a character
outside the basic plane. -/
def readCodePoint : Reader Char := fun text => do
  let (high, text) ← readHex4 text
  if isLowSurrogate high then throw (.here .loneSurrogate text)
  else if isHighSurrogate high then
    let text ← readPairChar '\\' text
    let text ← readPairChar 'u' text
    let (low, text) ← readHex4 text
    if isLowSurrogate low then
      return (Char.ofNat (0x10000 + (high - 0xd800) * 0x400 + (low - 0xdc00)), text)
    else throw (.here .loneSurrogate text)
  else return (Char.ofNat high, text)

def readEscape : Reader Char
  | [] => .error (.ended .string)
  | .char c :: rest =>
      if c = 'u' then readCodePoint rest
      else
        match escapedChar? c with
        | some escaped => .ok (escaped, rest)
        | none => .error (.next .invalidEscape (.char c :: rest))
  | piece :: rest => .error (.next .invalidEscape (piece :: rest))

/-- Reads past an escape, behind its backslash, whatever code point it names. -/
def skipEscape : List Piece → Except Fault (List Piece)
  | [] => .error (.ended .string)
  | .char c :: rest =>
      if c = 'u' then (readHex4 rest).map (·.2)
      else
        match escapedChar? c with
        | some _ => .ok rest
        | none => .error (.next .invalidEscape (.char c :: rest))
  | piece :: rest => .error (.next .invalidEscape (piece :: rest))

theorem readHex4_length {text rest : List Piece} {n : Nat} (h : readHex4 text = .ok (n, rest)) :
    rest.length < text.length := by
  unfold readHex4 at h
  split at h
  · split at h
    · simp only [Except.ok.injEq, Prod.mk.injEq] at h
      rw [← h.2]
      simp only [List.length_cons]
      omega
    · simp at h
  · simp at h

theorem readPairChar_length {c : Char} {text rest : List Piece}
    (h : readPairChar c text = .ok rest) : rest.length < text.length := by
  unfold readPairChar at h
  split at h
  · simp at h
  · split at h
    · simp only [Except.ok.injEq] at h
      simp [h]
    · simp at h

theorem readCodePoint_length {text rest : List Piece} {c : Char}
    (h : readCodePoint text = .ok (c, rest)) : rest.length < text.length := by
  simp only [readCodePoint, bind, Except.bind, pure, Except.pure, throw, throwThe,
    MonadExceptOf.throw] at h
  split at h
  · simp at h
  · rename_i first hfirst
    have h1 := readHex4_length hfirst
    split at h
    · simp at h
    · split at h
      · split at h
        · simp at h
        · rename_i second hsecond
          have h2 := readPairChar_length hsecond
          split at h
          · simp at h
          · rename_i third hthird
            have h3 := readPairChar_length hthird
            split at h
            · simp at h
            · rename_i fourth hfourth
              have h4 := readHex4_length hfourth
              split at h
              · simp only [Except.ok.injEq, Prod.mk.injEq] at h
                rw [← h.2]
                omega
              · simp at h
      · simp only [Except.ok.injEq, Prod.mk.injEq] at h
        rw [← h.2]
        exact h1

theorem readEscape_length {text rest : List Piece} {c : Char}
    (h : readEscape text = .ok (c, rest)) : rest.length < text.length := by
  unfold readEscape at h
  split at h
  · simp at h
  · split at h
    · have := readCodePoint_length h
      simp only [List.length_cons]
      omega
    · split at h
      · simp only [Except.ok.injEq, Prod.mk.injEq] at h
        simp [h.2]
      · simp at h
  · simp at h

theorem skipEscape_length {text rest : List Piece} (h : skipEscape text = .ok rest) :
    rest.length < text.length := by
  unfold skipEscape at h
  split at h
  · simp at h
  · rename_i c tail
    split at h
    · cases hhex : readHex4 tail with
      | error fault => simp [hhex, Except.map] at h
      | ok found =>
        have := readHex4_length hhex
        simp only [hhex, Except.map, Except.ok.injEq] at h
        rw [← h]
        simp only [List.length_cons]
        omega
    · split at h
      · simp only [Except.ok.injEq] at h
        simp [h]
      · simp at h
  · simp at h

/-! ## 3. String literals -/

/-- Whether a character may not stand unescaped in a string literal. -/
def isControl (c : Char) : Bool :=
  c.toNat < 0x20

def readStringPieces (text : List Piece) : Except Fault (List Piece × List Piece) :=
  match text with
  | [] => .error (.ended .string)
  | .stray byte :: rest => (readStringPieces rest).map fun (ps, after) => (.stray byte :: ps, after)
  | .char c :: rest =>
      if c = '"' then .ok ([], rest)
      else if c = '\\' then
        match _h : readEscape rest with
        | .error fault => .error fault
        | .ok (escaped, rest) =>
            (readStringPieces rest).map fun (ps, after) => (.char escaped :: ps, after)
      else if isControl c then .error (.next .controlCharacter (.char c :: rest))
      else (readStringPieces rest).map fun (ps, after) => (.char c :: ps, after)
termination_by text.length
decreasing_by
  · simp
  · have := readEscape_length _h
    simp only [List.length_cons]
    omega
  · simp

def readString : Reader (List Char) := fun text => do
  let (pieces, rest) ← readStringPieces text
  match Piece.toChars? pieces with
  | some content => return (content, rest)
  | none => throw (.here .invalidCodePoint rest)

def skipString (text : List Piece) : Except Fault (List Piece) :=
  match text with
  | [] => .error (.ended .string)
  | .stray _ :: rest => skipString rest
  | .char c :: rest =>
      if c = '"' then .ok rest
      else if c = '\\' then
        match _h : skipEscape rest with
        | .error fault => .error fault
        | .ok rest => skipString rest
      else if isControl c then .error (.here .controlCharacter (.char c :: rest))
      else skipString rest
termination_by text.length
decreasing_by
  · simp
  · have := skipEscape_length _h
    simp only [List.length_cons]
    omega
  · simp

/-! ## 4. What is read past is gone -/

theorem skipBlank_length (text : List Piece) : (skipBlank text).length ≤ text.length :=
  (List.dropWhile_suffix isSpace).length_le

theorem readWord_length {word : List Char} {text rest : List Piece}
    (h : readWord word text = .ok rest) : rest.length ≤ text.length := by
  induction word generalizing text with
  | nil =>
    simp only [readWord, Except.ok.injEq] at h
    exact Nat.le_of_eq (congrArg _ h.symm)
  | cons c cs ih =>
    cases text with
    | nil => simp [readWord] at h
    | cons piece tail =>
      simp only [readWord] at h
      split at h
      · have := ih h
        simp only [List.length_cons]
        omega
      · simp at h

theorem skipString_length {text rest : List Piece} (h : skipString text = .ok rest) :
    rest.length < text.length := by
  fun_induction skipString text generalizing rest with
  | case1 => simp at h
  | case2 byte tail ih =>
    have := ih h
    simp only [List.length_cons]
    omega
  | case3 tail =>
    simp only [Except.ok.injEq] at h
    simp [h]
  | case4 => simp at h
  | case5 tail after hescape hquote ih =>
    have h1 := skipEscape_length hescape
    have h2 := ih h
    simp only [List.length_cons]
    omega
  | case6 => simp at h
  | case7 c tail hquote hescape hcontrol ih =>
    have := ih h
    simp only [List.length_cons]
    omega

end ModuleSurface.Json
