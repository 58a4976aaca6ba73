import ModuleSurface.Toml.Text

/-!
# Document — whole documents of the configuration language

A document is a sequence of lines, each a header, a key with its value, or nothing but a comment.
A key may have only so many parts, and values may be nested only so deep.  The table under the last
header is kept apart until the next header, and then put where its header says.
-/

namespace ModuleSurface.Toml

/-! ## 1. Keys -/

def isBareKeyChar (c : Char) : Bool :=
  c.isAlphanum || c == '_' || c == '-'

def keyPart? (text : List Char) : Option (List Char × List Char) :=
  match text with
  | '"' :: rest => basicString? rest
  | '\'' :: rest => literalString? rest
  | _ =>
      let part := text.takeWhile isBareKeyChar
      if part.isEmpty then none else some (part, text.dropWhile isBareKeyChar)

/-- A dotted key of at most the given number of parts, as the parts before its last one and the last
one, and what follows. -/
def dottedKey? : Nat → List Char → Option ((List (List Char) × List Char) × List Char)
  | 0, _ => none
  | parts + 1, text => do
      let (part, rest) ← keyPart? text
      match skipSpace rest with
      | '.' :: rest =>
          let ((path, last), rest) ← dottedKey? parts (skipSpace rest)
          return ((part :: path, last), rest)
      | rest => return (([], part), rest)

def keyLimit : Nat := 80

def key? (text : List Char) : Option ((List (List Char) × List Char) × List Char) :=
  dottedKey? keyLimit text

/-! ## 2. Values -/

def depthLimit : Nat := 80

/-- Whether a character that is no blank ends a scalar that is no string. -/
def endsScalar (c : Char) : Bool :=
  c == '\n' || c == '\r' || c == ',' || c == ']' || c == '}' || c == '#' || c == '[' || c == '{' ||
    c == '='

/-- Whether a scalar goes on behind blanks, as one of a date and a time does. -/
def continuesScalar (text : List Char) : Bool :=
  match skipSpace text with
  | [] => false
  | c :: _ => !(endsScalar c || c == '.' || c == '"' || c == '\'')

/-- The text of a scalar and what follows.  Blanks belong to it if it goes on behind them. -/
def scalarText : List Char → List Char × List Char
  | [] => ([], [])
  | c :: rest =>
      if endsScalar c || (isSpace c && !continuesScalar rest) then ([], c :: rest)
      else (c :: (scalarText rest).1, (scalarText rest).2)

/-- A value that is neither an array nor a table in braces, and what follows. -/
def simpleValue? (text : List Char) : Option (Node × List Char) :=
  match text with
  | '"' :: _ => (string? text).map fun (content, rest) => (.scalar (.string content), rest)
  | '\'' :: _ => (string? text).map fun (content, rest) => (.scalar (.string content), rest)
  | _ => (scalar? (scalarText text).1).map fun value => (.scalar value, (scalarText text).2)

/-- The items of an array up to its closing bracket; there are fewer than `bound`. -/
def items? (value? : List Char → Option (Node × List Char)) :
    Nat → List Char → Option (List Node × List Char)
  | 0, _ => none
  | bound + 1, text => do
      match ← skipTrivia false text with
      | ']' :: rest => return ([], rest)
      | text =>
          let (item, rest) ← value? text
          match ← skipTrivia false rest with
          | ']' :: rest => return ([item], rest)
          | ',' :: rest =>
              let (items, rest) ← items? value? bound rest
              return (item :: items, rest)
          | _ => none

/-- A key, its equals sign and its value, and what follows.  What may stand on either side of the
equals sign is passed over by `skip?`. -/
def keyValue? (skip? : List Char → Option (List Char))
    (value? : List Char → Option (Node × List Char)) (text : List Char) :
    Option (((List (List Char) × List Char) × Node) × List Char) := do
  let (key, rest) ← key? text
  let rest ← after? '=' (← skip? rest)
  let (value, rest) ← value? (← skip? rest)
  return ((key, value), rest)

/-- The entries of a table in braces up to its closing brace; there are fewer than `bound`.  Lines
may end and comments may stand anywhere between its parts, but not inside a key. -/
def braced? (value? : List Char → Option (Node × List Char)) :
    Nat → Entries → List Char → Option (Entries × List Char)
  | 0, _, _ => none
  | bound + 1, entries, text => do
      match ← skipTrivia false text with
      | '}' :: rest => return (entries, rest)
      | text =>
          let (((path, key), value), rest) ← keyValue? (skipTrivia false) value? text
          let entries ← assign key value path entries
          match ← skipTrivia false rest with
          | '}' :: rest => return (entries, rest)
          | ',' :: rest => braced? value? bound entries rest
          | _ => none

def value? : Nat → List Char → Option (Node × List Char)
  | 0, text => simpleValue? text
  | depth + 1, text =>
      match text with
      | '[' :: rest =>
          (items? (value? depth) (rest.length + 1) rest).map fun (items, rest) =>
            (.array false items, rest)
      | '{' :: rest =>
          (braced? (value? depth) (rest.length + 1) [] rest).map fun (entries, rest) =>
            (.table .braces entries, rest)
      | _ => simpleValue? text

/-! ## 3. Headers -/

/-- A header: the path to its table, the key of the table, and whether it stands for one more
table of an array. -/
structure Header where
  path : List (List Char)
  key : List Char
  isArray : Bool

def header? (text : List Char) : Option (Header × List Char) :=
  match text with
  | '[' :: '[' :: rest => do
      let ((path, key), rest) ← key? (skipSpace rest)
      let rest ← after? ']' (skipSpace rest)
      let rest ← after? ']' rest
      return (⟨path, key, true⟩, rest)
  | '[' :: rest => do
      let ((path, key), rest) ← key? (skipSpace rest)
      let rest ← after? ']' (skipSpace rest)
      return (⟨path, key, false⟩, rest)
  | _ => none

/-- What has been read of a document: the tables that are finished, and the one that is not. -/
structure Draft where
  root : Entries := []
  header : Option Header := none
  current : Entries := []

namespace Draft

/-- The whole document, with the last table in its place. -/
def finish? (draft : Draft) : Option Entries :=
  match draft.header with
  | none => some draft.current
  | some header =>
      changeAt
        ((if header.isArray then pushTable else putTable) header.key draft.current)
        header.path draft.root

def open? (draft : Draft) (header : Header) : Option Draft := do
  let root ← draft.finish?
  let current ← if header.isArray then some [] else opened? header.key header.path root
  return ⟨root, some header, current⟩

end Draft

/-! ## 4. Lines -/

/-- Reads the lines of a text; there are fewer than `bound`. -/
def readLines? : Nat → Draft → List Char → Option Entries
  | 0, _, _ => none
  | bound + 1, draft, text =>
      match skipSpace text with
      | [] => draft.finish?
      | '[' :: rest => do
          let (header, rest) ← header? ('[' :: rest)
          let draft ← draft.open? header
          readLines? bound draft (← endLine? false rest)
      | c :: rest =>
          if c = '#' || c = '\n' || c = '\r' then do
            readLines? bound draft (← endLine? false (c :: rest))
          else do
            let (((path, key), value), rest) ←
              keyValue? (some ∘ skipSpace) (value? depthLimit) (c :: rest)
            let current ← assign key value path draft.current
            readLines? bound { draft with current } (← endLine? false rest)

/-- The entries of a document; none if the text is not one.  A byte order mark may stand before
it. -/
def read? (text : String) : Option Entries :=
  let chars :=
    match text.toList with
    | c :: rest => if c = '\ufeff' then rest else c :: rest
    | [] => []
  readLines? (chars.length + 1) {} chars

end ModuleSurface.Toml
