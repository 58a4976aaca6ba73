/-!
# Value — documents of the JSON data format, and how they are written

An object keeps its members in order and may repeat a key, as texts of the format can.  One writer
serves two layouts: a compact one without any blanks, and a pretty one with a member or an item a
line, two spaces for each level, and a space behind each colon.
-/

namespace ModuleSurface

/-- A document of the data format; a number is kept as its text. -/
inductive Json
  | null
  | boolean (value : Bool)
  | numeral (digits : List Char)
  | string (content : List Char)
  | array (items : List Json)
  | object (members : List (List Char × Json))
  deriving Repr

namespace Json

inductive Layout
  | compact
  | pretty
  deriving DecidableEq, Repr

/-! ## 1. String literals -/

def hexDigit (n : Nat) : Char :=
  if n < 10 then Char.ofNat (48 + n) else Char.ofNat (87 + n)

def literalChar (c : Char) : List Char :=
  if c = '"' then ['\\', '"']
  else if c = '\\' then ['\\', '\\']
  else if c = '\x08' then ['\\', 'b']
  else if c = '\x0c' then ['\\', 'f']
  else if c = '\n' then ['\\', 'n']
  else if c = '\r' then ['\\', 'r']
  else if c = '\t' then ['\\', 't']
  else if c.toNat < 0x20 then
    ['\\', 'u', '0', '0', hexDigit (c.toNat / 16), hexDigit (c.toNat % 16)]
  else [c]

def literal (content : List Char) : List Char :=
  '"' :: content.flatMap literalChar ++ ['"']

/-! ## 2. Whole documents -/

/-- What stands before an item or a closing bracket at the given depth. -/
def Layout.lineBreak (depth : Nat) : Layout → List Char
  | compact => []
  | pretty => '\n' :: List.replicate (2 * depth) ' '

def Layout.colon : Layout → List Char
  | compact => [':']
  | pretty => [':', ' ']

mutual

def write (layout : Layout) (depth : Nat) : Json → List Char
  | null => ['n', 'u', 'l', 'l']
  | boolean true => ['t', 'r', 'u', 'e']
  | boolean false => ['f', 'a', 'l', 's', 'e']
  | numeral digits => digits
  | string content => literal content
  | array [] => ['[', ']']
  | array (item :: items) =>
      '[' :: layout.lineBreak (depth + 1) ++ write layout (depth + 1) item ++
        writeItems layout (depth + 1) items ++ layout.lineBreak depth ++ [']']
  | object [] => ['{', '}']
  | object ((key, value) :: members) =>
      '{' :: layout.lineBreak (depth + 1) ++ literal key ++ layout.colon ++
        write layout (depth + 1) value ++ writeMembers layout (depth + 1) members ++
        layout.lineBreak depth ++ ['}']

/-- The texts of further items, each with the comma before it. -/
def writeItems (layout : Layout) (depth : Nat) : List Json → List Char
  | [] => []
  | item :: items =>
      ',' :: layout.lineBreak depth ++ write layout depth item ++ writeItems layout depth items

/-- The texts of further members, each with the comma before it. -/
def writeMembers (layout : Layout) (depth : Nat) : List (List Char × Json) → List Char
  | [] => []
  | (key, value) :: members =>
      ',' :: layout.lineBreak depth ++ literal key ++ layout.colon ++ write layout depth value ++
        writeMembers layout depth members

end

def render (layout : Layout) (document : Json) : List Char :=
  document.write layout 0

end Json

end ModuleSurface
