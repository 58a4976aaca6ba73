import ModuleSurface.Json.Skip

/-!
# Record — reading lists and records of known fields

A record is written as an object with its fields as members, in any order and among other members
that are read past, or as a list of its fields in order.  What has been read of a record is its
draft; a schema says which fields there are, how each is put into the draft, and what a complete
draft amounts to.
-/

namespace ModuleSurface.Json

/-! ## 1. A value where another one was expected -/

/-- The fault of a value that is not the expected one, from its first piece on. -/
def mismatch (expected : Expected) (text : List Piece) : Fault :=
  let found (found : Found) : Except Fault (List Piece) → Fault
    | .error fault => fault
    | .ok rest => .here (.wrongType found expected) rest
  let number : Except Fault (Found × List Piece) → Fault
    | .error fault => fault
    | .ok (value, rest) => .here (.wrongType value expected) rest
  match text with
  | [] => .ended .value
  | .char 'n' :: rest => found .null (readWord ['u', 'l', 'l'] rest)
  | .char 't' :: rest => found (.boolean true) (readWord ['r', 'u', 'e'] rest)
  | .char 'f' :: rest => found (.boolean false) (readWord ['a', 'l', 's', 'e'] rest)
  | .char '-' :: rest => number (readNumber true rest)
  | .char '"' :: rest =>
      match readString rest with
      | .error fault => fault
      | .ok (content, rest) => .here (.wrongType (.text content) expected) rest
  | .char '[' :: _ => .here (.wrongType .list expected) text
  | .char '{' :: _ => .here (.wrongType .record expected) text
  | piece :: rest =>
      if (digitValue? piece).isSome then number (readNumber false (piece :: rest))
      else .next .expectedValue text

def readText : Reader String := fun text =>
  match skipBlank text with
  | [] => .error (.ended .value)
  | .char '"' :: rest => (readString rest).map fun (content, rest) => (String.ofList content, rest)
  | other => .error (mismatch .text other)

/-! ## 2. Brackets -/

def closeBracket (opened : Opened) (text : List Piece) : Except Fault (List Piece) :=
  match skipBlank text with
  | [] => .error (.ended opened.construct)
  | piece :: rest =>
      if piece = .char opened.closer then .ok rest
      else if piece = .char ',' then
        match opened with
        | .record => .error (.next .trailingComma (piece :: rest))
        | .list =>
            match skipBlank rest with
            | .char ']' :: after => .error (.next .trailingComma (.char ']' :: after))
            | other => .error (.next .trailingCharacters other)
      else .error (.next .trailingCharacters (piece :: rest))

/-- What is unread after an attempt to read past a closing bracket. -/
def afterClosing (opened : Opened) (text : List Piece) : List Piece :=
  match skipBlank text with
  | [] => []
  | piece :: rest =>
      if piece = .char opened.closer then rest
      else if opened = .list ∧ piece = .char ',' then skipBlank rest
      else piece :: rest

/-- A pending fault gets its place behind the attempt to close the bracket that it arose in. -/
def Fault.settle (opened : Opened) : Fault → Fault
  | placed cause unread ahead => .placed cause unread ahead
  | pending cause unread => .placed cause (afterClosing opened unread) 0

/-- Reads the content of a bracket, which has been opened, and the bracket that closes it. -/
def within {α : Type} (opened : Opened) (content : Reader α) : Reader α := fun text =>
  match content text with
  | .error fault => .error (fault.settle opened)
  | .ok (value, rest) => (closeBracket opened rest).map fun rest => (value, rest)

/-! ## 3. Lists -/

/-- Whether a list goes on, and its text from the next item or the closing bracket on. -/
def readListStep (first : Bool) : Reader Bool := fun text =>
  match skipBlank text with
  | [] => .error (.ended .list)
  | .char ']' :: rest => .ok (false, .char ']' :: rest)
  | piece :: rest =>
      if first then .ok (true, piece :: rest)
      else if piece = .char ',' then
        match skipBlank rest with
        | [] => .error (.ended .value)
        | .char ']' :: after => .error (.next .trailingComma (.char ']' :: after))
        | other => .ok (true, other)
      else .error (.next .expectedItemEnd (piece :: rest))

/-- Reads the items of a list up to its closing bracket; there are at most `bound` of them. -/
def readItems {α : Type} (item : Reader α) : Nat → Bool → Reader (List α)
  | 0, _, _ => .error (.ended .list)
  | bound + 1, first, text => do
      match ← readListStep first text with
      | (false, rest) => return ([], rest)
      | (true, rest) =>
          let (value, rest) ← item rest
          let (values, rest) ← readItems item bound false rest
          return (value :: values, rest)

/-- Reads a list.  Every item takes at least one piece of the text. -/
def readList {α : Type} (item : Reader α) : Reader (List α) := fun text =>
  match skipBlank text with
  | [] => .error (.ended .value)
  | .char '[' :: rest => within .list (readItems item (rest.length + 1) true) rest
  | other => .error (mismatch .list other)

/-! ## 4. Records -/

/-- One field of a record, as a part of its draft. -/
structure Field (Draft : Type) where
  key : String
  isGiven : Draft → Bool
  read : Draft → Reader Draft

/-- The fields of a record in order, and what a complete draft amounts to. -/
structure Schema (Draft α : Type) where
  name : String
  fields : List (Field Draft)
  empty : Draft
  finish : Draft → Except Cause α

variable {Draft α : Type}

/-- Reads the given fields from the items of a list; `count` items have been read. -/
def readFields (schema : Schema Draft α) (count : Nat) (draft : Draft) :
    List (Field Draft) → Reader Draft
  | [], text => .ok (draft, text)
  | field :: fields, text => do
      match ← readListStep (count == 0) text with
      | (false, rest) =>
          throw (.pending (.wrongLength count schema.name schema.fields.length) rest)
      | (true, rest) =>
          let (draft, rest) ← field.read draft rest
          readFields schema (count + 1) draft fields rest

/-- The text of an object from its next key or its closing bracket on. -/
def readMemberStep (first : Bool) (text : List Piece) : Except Fault (List Piece) :=
  match skipBlank text with
  | [] => .error (.ended .object)
  | .char '}' :: rest => .ok (.char '}' :: rest)
  | piece :: rest =>
      if first then .ok (piece :: rest)
      else if piece = .char ',' then
        match skipBlank rest with
        | [] => .error (.ended .value)
        | .char '}' :: after => .error (.next .trailingComma (.char '}' :: after))
        | other => .ok other
      else .error (.next .expectedMemberEnd (piece :: rest))

def readColon (text : List Piece) : Except Fault (List Piece) :=
  match skipBlank text with
  | [] => .error (.ended .object)
  | .char ':' :: rest => .ok rest
  | other => .error (.next .expectedColon other)

/-- Reads a member from its key on; a member that is no field is read past. -/
def readMember (schema : Schema Draft α) (draft : Draft) : Reader Draft
  | .char '"' :: rest => do
      let (key, rest) ← readString rest
      match schema.fields.find? (·.key.toList == key) with
      | none =>
          let rest ← readColon rest
          let rest ← skip rest
          return (draft, rest)
      | some field =>
          if field.isGiven draft then throw (.pending (.repeatedField field.key) rest)
          else
            let rest ← readColon rest
            field.read draft rest
  | text => .error (.next .keyNotText text)

/-- Reads the members of an object up to its closing bracket; there are at most `bound`. -/
def readMembers (schema : Schema Draft α) : Nat → Bool → Draft → Reader Draft
  | 0, _, _, _ => .error (.ended .object)
  | bound + 1, first, draft, text => do
      match ← readMemberStep first text with
      | .char '}' :: rest => return (draft, .char '}' :: rest)
      | rest =>
          let (draft, rest) ← readMember schema draft rest
          readMembers schema bound false draft rest

/-- What a draft amounts to, before the closing bracket of its record. -/
def finishDraft (schema : Schema Draft α) (draft : Draft) : Reader α := fun text =>
  match schema.finish draft with
  | .ok value => .ok (value, text)
  | .error cause => .error (.pending cause text)

def Schema.read (schema : Schema Draft α) : Reader α := fun text =>
  match skipBlank text with
  | [] => .error (.ended .value)
  | .char '[' :: rest =>
      within .list (fun text => do
        let (draft, text) ← readFields schema 0 schema.empty schema.fields text
        finishDraft schema draft text) rest
  | .char '{' :: rest =>
      within .record (fun text => do
        let (draft, text) ← readMembers schema (rest.length + 1) true schema.empty text
        finishDraft schema draft text) rest
  | other => .error (mismatch (.record schema.name) other)

/-- Reads a whole text: one value and nothing behind it but blanks. -/
def readDocument (value : Reader α) (text : List Piece) : Except Fault α := do
  let (a, rest) ← value text
  match skipBlank rest with
  | [] => return a
  | other => throw (.next .trailingCharacters other)

end ModuleSurface.Json
