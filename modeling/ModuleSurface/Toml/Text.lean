import ModuleSurface.Toml.Scalar

/-!
# Text — blanks, comments and strings of the configuration language
-/

namespace ModuleSurface.Toml

/-! ## 1. Characters -/

def isSpace (c : Char) : Bool :=
  c == ' ' || c == '\t'

/-- Whether a character may stand in a comment or a string. -/
def isAllowed (c : Char) : Bool :=
  c == '\t' || (0x20 ≤ c.toNat && c.toNat != 0x7f)

def skipSpace (text : List Char) : List Char :=
  text.dropWhile isSpace

def afterNewline? : List Char → Option (List Char)
  | '\n' :: rest => some rest
  | '\r' :: '\n' :: rest => some rest
  | _ => none

/-- Reads past blanks, line endings and comments; none if a comment holds what it may not. -/
def skipTrivia (inComment : Bool) : List Char → Option (List Char)
  | [] => some []
  | '\n' :: rest => skipTrivia false rest
  | '\r' :: '\n' :: rest => skipTrivia false rest
  | c :: rest =>
      if inComment then (if isAllowed c then skipTrivia true rest else none)
      else if isSpace c then skipTrivia false rest
      else if c = '#' then skipTrivia true rest
      else some (c :: rest)

/-- Reads past the rest of a line: blanks, a comment, and the line ending or the end of the text. -/
def endLine? (inComment : Bool) : List Char → Option (List Char)
  | [] => some []
  | '\n' :: rest => some rest
  | '\r' :: '\n' :: rest => some rest
  | c :: rest =>
      if inComment then (if isAllowed c then endLine? true rest else none)
      else if isSpace c then endLine? false rest
      else if c = '#' then endLine? true rest
      else none

/-! ## 2. Escapes -/

def escapedChar? : Char → Option Char
  | 'b' => some '\x08'
  | 't' => some '\t'
  | 'n' => some '\n'
  | 'f' => some '\x0c'
  | 'r' => some '\r'
  | 'e' => some '\x1b'
  | '"' => some '"'
  | '\\' => some '\\'
  | _ => none

def charOfHex? (digits : List Char) : Option Char :=
  (digits? 16 0 digits).bind fun n => if n.isValidChar then some (Char.ofNat n) else none

def codePoint? (count : Nat) (text : List Char) : Option (Char × List Char) :=
  if count ≤ text.length then (charOfHex? (text.take count)).map fun c => (c, text.drop count)
  else none

def escape? : List Char → Option (Char × List Char)
  | [] => none
  | 'x' :: rest => codePoint? 2 rest
  | 'u' :: rest => codePoint? 4 rest
  | 'U' :: rest => codePoint? 8 rest
  | c :: rest => (escapedChar? c).map fun escaped => (escaped, rest)

theorem escape?_length {text rest : List Char} {c : Char} (h : escape? text = some (c, rest)) :
    rest.length < text.length := by
  have hpoint : ∀ {count : Nat} {t : List Char}, codePoint? count t = some (c, rest) →
      rest.length ≤ t.length := by
    intro count t ht
    unfold codePoint? at ht
    split at ht
    · simp only [Option.map_eq_some_iff, Prod.mk.injEq] at ht
      obtain ⟨_, _, _, hrest⟩ := ht
      rw [← hrest]
      simp
    · simp at ht
  unfold escape? at h
  split at h
  · simp at h
  · exact Nat.lt_succ_of_le (hpoint h)
  · exact Nat.lt_succ_of_le (hpoint h)
  · exact Nat.lt_succ_of_le (hpoint h)
  · simp only [Option.map_eq_some_iff, Prod.mk.injEq] at h
    obtain ⟨_, _, _, hrest⟩ := h
    simp [hrest]

/-! ## 3. Strings of one line -/

def consContent (c : Char) : List Char × List Char → List Char × List Char
  | (content, rest) => (c :: content, rest)

def basicString? (text : List Char) : Option (List Char × List Char) :=
  match text with
  | [] => none
  | c :: rest =>
      if c = '"' then some ([], rest)
      else if c = '\\' then
        match _h : escape? rest with
        | none => none
        | some (escaped, rest) => (basicString? rest).map (consContent escaped)
      else if isAllowed c then (basicString? rest).map (consContent c)
      else none
termination_by text.length
decreasing_by
  · have := escape?_length _h
    simp only [List.length_cons]
    omega
  · simp

def literalString? : List Char → Option (List Char × List Char)
  | [] => none
  | c :: rest =>
      if c = '\'' then some ([], rest)
      else if isAllowed c then (literalString? rest).map (consContent c)
      else none

/-! ## 4. Strings of several lines -/

/-- A string of several lines may end in up to two quotes of its own, before the three that close
it.  Given the text behind the first three, what belongs to the content, and what follows. -/
def closingQuotes (quote : Char) : List Char → List Char × List Char
  | a :: b :: rest =>
      if a = quote ∧ b = quote then ([a, b], rest)
      else if a = quote then ([a], b :: rest)
      else ([], a :: b :: rest)
  | [a] => if a = quote then ([a], []) else ([], [a])
  | [] => ([], [])

def afterThree? (quote : Char) : List Char → Option (List Char)
  | a :: b :: c :: rest => if a = quote ∧ b = quote ∧ c = quote then some rest else none
  | _ => none

/-- A text without the blanks and line endings at its start.  A carriage return alone is neither. -/
def skipBlankLines : List Char → List Char
  | [] => []
  | '\n' :: rest => skipBlankLines rest
  | '\r' :: '\n' :: rest => skipBlankLines rest
  | c :: rest => if isSpace c then skipBlankLines rest else c :: rest

theorem skipBlankLines_length (text : List Char) : (skipBlankLines text).length ≤ text.length := by
  fun_induction skipBlankLines text with
  | case1 => simp
  | case2 rest ih =>
    simp only [List.length_cons]
    omega
  | case3 rest ih =>
    simp only [List.length_cons]
    omega
  | case4 c rest _ _ _ ih =>
    simp only [List.length_cons]
    omega
  | case5 c rest => simp

/-- What follows a backslash at the end of a line: the text from the next line on that is not
blank. -/
def continuation? (text : List Char) : Option (List Char) :=
  (afterNewline? (skipSpace text)).map skipBlankLines

theorem continuation?_length {text rest : List Char} (h : continuation? text = some rest) :
    rest.length < text.length := by
  simp only [continuation?, Option.map_eq_some_iff] at h
  obtain ⟨line, hline, hrest⟩ := h
  have h1 : (skipSpace text).length ≤ text.length := (List.dropWhile_suffix isSpace).length_le
  have h2 : line.length < (skipSpace text).length := by
    generalize skipSpace text = t at hline
    unfold afterNewline? at hline
    split at hline
    · simp only [Option.some.injEq] at hline
      simp [hline]
    · simp only [Option.some.injEq] at hline
      rw [hline]
      simp only [List.length_cons]
      omega
    · simp at hline
  have h3 : rest.length ≤ line.length := hrest ▸ skipBlankLines_length line
  omega

def basicLines? (text : List Char) : Option (List Char × List Char) :=
  match text with
  | [] => none
  | c :: rest =>
      match afterThree? '"' (c :: rest) with
      | some after => some (closingQuotes '"' after)
      | none =>
          if c = '\\' then
            match _hc : continuation? rest with
            | some rest => basicLines? rest
            | none =>
                match _he : escape? rest with
                | none => none
                | some (escaped, rest) => (basicLines? rest).map (consContent escaped)
          else if c = '\r' && rest.head? != some '\n' then none
          else if isAllowed c || c = '\n' || c = '\r' then (basicLines? rest).map (consContent c)
          else none
termination_by text.length
decreasing_by
  · have := continuation?_length _hc
    simp only [List.length_cons]
    omega
  · have := escape?_length _he
    simp only [List.length_cons]
    omega
  · simp

def literalLines? : List Char → Option (List Char × List Char)
  | [] => none
  | c :: rest =>
      match afterThree? '\'' (c :: rest) with
      | some after => some (closingQuotes '\'' after)
      | none =>
          if c = '\r' && rest.head? != some '\n' then none
          else if isAllowed c || c = '\n' || c = '\r' then
            (literalLines? rest).map (consContent c)
          else none

def dropNewline (text : List Char) : List Char :=
  (afterNewline? text).getD text

/-- A string of any form from its first quote on; none if there is no quote. -/
def string? (text : List Char) : Option (List Char × List Char) :=
  match afterThree? '"' text, afterThree? '\'' text, text with
  | some rest, _, _ => basicLines? (dropNewline rest)
  | none, some rest, _ => literalLines? (dropNewline rest)
  | none, none, '"' :: rest => basicString? rest
  | none, none, '\'' :: rest => literalString? rest
  | none, none, _ => none

end ModuleSurface.Toml
