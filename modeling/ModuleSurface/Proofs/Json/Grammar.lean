import ModuleSurface.Json.Value

/-!
# Grammar — the texts of the JSON data format, and the documents they stand for

A text stands for a document (`IsDocument`) when the grammar of the format derives it: blanks
between the tokens, strings with escapes that name characters, numbers with neither leading zeros
nor lone points.  What follows the first item of a list or the first member of an object is a
sequence of its own, in which each item or member brings its comma.
-/

namespace ModuleSurface.Json

/-! ## 1. Blanks and string literals -/

/-- A text of the characters that may stand between tokens. -/
def IsGap (text : List Char) : Prop :=
  ∀ c ∈ text, c ∈ [' ', '\n', '\t', '\r']

def lowerHexDigits : List Char :=
  ['0', '1', '2', '3', '4', '5', '6', '7', '8', '9', 'a', 'b', 'c', 'd', 'e', 'f']

def upperHexDigits : List Char :=
  ['0', '1', '2', '3', '4', '5', '6', '7', '8', '9', 'A', 'B', 'C', 'D', 'E', 'F']

def IsHexDigit (n : Nat) (c : Char) : Prop :=
  lowerHexDigits[n]? = some c ∨ upperHexDigits[n]? = some c

inductive IsHex4 : Nat → List Char → Prop
  | digits {m n o p : Nat} {a b c d : Char} (ha : IsHexDigit m a) (hb : IsHexDigit n b)
      (hc : IsHexDigit o c) (hd : IsHexDigit p d) :
      IsHex4 (((m * 16 + n) * 16 + o) * 16 + p) [a, b, c, d]

/-- The letters that stand for a character behind a backslash. -/
def escapeLetters : List (Char × Char) :=
  [('"', '"'), ('\\', '\\'), ('/', '/'), ('b', '\x08'), ('f', '\x0c'), ('n', '\n'), ('r', '\r'),
    ('t', '\t')]

/-- The ways of writing a character in a string literal.  An escape names a character: its number
is no half of a surrogate pair, or two escapes are such a pair. -/
inductive SpellsChar : Char → List Char → Prop
  | plain {c : Char} (hquote : c ≠ '"') (hescape : c ≠ '\\') (hcontrol : 0x20 ≤ c.toNat) :
      SpellsChar c [c]
  | letter {letter c : Char} (hletter : (letter, c) ∈ escapeLetters) :
      SpellsChar c ['\\', letter]
  | number {n : Nat} {digits : List Char} (hdigits : IsHex4 n digits)
      (hscalar : n < 0xd800 ∨ 0xdfff < n) : SpellsChar (Char.ofNat n) ('\\' :: 'u' :: digits)
  | pair {high low : Nat} {first second : List Char} (hfirst : IsHex4 high first)
      (hsecond : IsHex4 low second) (hhigh : 0xd800 ≤ high ∧ high ≤ 0xdbff)
      (hlow : 0xdc00 ≤ low ∧ low ≤ 0xdfff) :
      SpellsChar (Char.ofNat (0x10000 + (high - 0xd800) * 0x400 + (low - 0xdc00)))
        ('\\' :: 'u' :: (first ++ '\\' :: 'u' :: second))

inductive Spells : List Char → List Char → Prop
  | nil : Spells [] []
  | cons {c : Char} {content written more : List Char} (hc : SpellsChar c written)
      (hmore : Spells content more) : Spells (c :: content) (written ++ more)

/-- Most characters are written as themselves. -/
theorem spells_self {text : List Char} (h : ∀ c ∈ text, c ≠ '"' ∧ c ≠ '\\' ∧ 0x20 ≤ c.toNat) :
    Spells text text := by
  induction text with
  | nil => exact .nil
  | cons c text ih =>
    obtain ⟨⟨hquote, hescape, hcontrol⟩, hmore⟩ := List.forall_mem_cons.mp h
    exact .cons (.plain hquote hescape hcontrol) (ih hmore)

/-! ## 2. Numbers -/

def IsDigit (c : Char) : Prop :=
  '0' ≤ c ∧ c ≤ '9'

instance (c : Char) : Decidable (IsDigit c) :=
  inferInstanceAs (Decidable ('0' ≤ c ∧ c ≤ '9'))

theorem IsDigit.ne {c d : Char} (hc : IsDigit c) (hd : ¬IsDigit d) : c ≠ d := by
  rintro rfl
  exact hd hc

def IsDigits (text : List Char) : Prop :=
  text ≠ [] ∧ ∀ c ∈ text, IsDigit c

/-- The digits before the point of a number. -/
inductive IsWhole : List Char → Prop
  | zero : IsWhole ['0']
  | digits {first : Char} {more : List Char} (hfirst : IsDigit first) (hzero : first ≠ '0')
      (hmore : ∀ c ∈ more, IsDigit c) : IsWhole (first :: more)

/-- The point of a number and the digits behind it, if there are any. -/
inductive IsFraction : List Char → Prop
  | none : IsFraction []
  | digits {digits : List Char} (hdigits : IsDigits digits) : IsFraction ('.' :: digits)

inductive IsExponent : List Char → Prop
  | none : IsExponent []
  | digits {letter : Char} {sign digits : List Char} (hletter : letter = 'e' ∨ letter = 'E')
      (hsign : sign = [] ∨ sign = ['+'] ∨ sign = ['-']) (hdigits : IsDigits digits) :
      IsExponent (letter :: (sign ++ digits))

inductive IsNumeral : List Char → Prop
  | parts {sign whole fraction exponent : List Char} (hsign : sign = [] ∨ sign = ['-'])
      (hwhole : IsWhole whole) (hfraction : IsFraction fraction) (hexponent : IsExponent exponent) :
      IsNumeral (sign ++ (whole ++ (fraction ++ exponent)))

/-! ## 3. Documents -/

/-- The key of a member, with the blanks before it and the colon behind it. -/
inductive IsKey : List Char → List Char → Prop
  | literal {lead written gap content : List Char} (hlead : IsGap lead)
      (hcontent : Spells content written) (hgap : IsGap gap) :
      IsKey (lead ++ '"' :: (written ++ '"' :: (gap ++ [':']))) content

mutual

/-- The documents that a text without blanks at its ends stands for. -/
inductive Denotes : List Char → Json → Prop
  | null : Denotes ['n', 'u', 'l', 'l'] .null
  | yes : Denotes ['t', 'r', 'u', 'e'] (.boolean true)
  | no : Denotes ['f', 'a', 'l', 's', 'e'] (.boolean false)
  | numeral {digits : List Char} (hdigits : IsNumeral digits) : Denotes digits (.numeral digits)
  | string {content written : List Char} (hcontent : Spells content written) :
      Denotes ('"' :: (written ++ ['"'])) (.string content)
  | emptyArray {gap : List Char} (hgap : IsGap gap) : Denotes ('[' :: (gap ++ [']'])) (.array [])
  | array {lead text more : List Char} {item : Json} {items : List Json} (hlead : IsGap lead)
      (hitem : Denotes text item) (hmore : DenotesItems more items) :
      Denotes ('[' :: (lead ++ (text ++ (more ++ [']'])))) (.array (item :: items))
  | emptyObject {gap : List Char} (hgap : IsGap gap) :
      Denotes ('{' :: (gap ++ ['}'])) (.object [])
  | object {key name lead text more : List Char} {value : Json}
      {members : List (List Char × Json)} (hkey : IsKey key name) (hlead : IsGap lead)
      (hvalue : Denotes text value) (hmore : DenotesMembers more members) :
      Denotes ('{' :: (key ++ (lead ++ (text ++ (more ++ ['}'])))))
        (.object ((name, value) :: members))

/-- The further items of a list, up to its closing bracket. -/
inductive DenotesItems : List Char → List Json → Prop
  | nil {gap : List Char} (hgap : IsGap gap) : DenotesItems gap []
  | cons {gap lead text more : List Char} {item : Json} {items : List Json} (hgap : IsGap gap)
      (hlead : IsGap lead) (hitem : Denotes text item) (hmore : DenotesItems more items) :
      DenotesItems (gap ++ ',' :: (lead ++ (text ++ more))) (item :: items)

inductive DenotesMembers : List Char → List (List Char × Json) → Prop
  | nil {gap : List Char} (hgap : IsGap gap) : DenotesMembers gap []
  | cons {gap key name lead text more : List Char} {value : Json}
      {members : List (List Char × Json)} (hgap : IsGap gap) (hkey : IsKey key name)
      (hlead : IsGap lead) (hvalue : Denotes text value) (hmore : DenotesMembers more members) :
      DenotesMembers (gap ++ ',' :: (key ++ (lead ++ (text ++ more)))) ((name, value) :: members)

end

/-- A whole text that stands for a document. -/
inductive IsDocument : List Char → Json → Prop
  | padded {lead text tail : List Char} {document : Json} (hlead : IsGap lead)
      (htext : Denotes text document) (htail : IsGap tail) :
      IsDocument (lead ++ (text ++ tail)) document

end ModuleSurface.Json
