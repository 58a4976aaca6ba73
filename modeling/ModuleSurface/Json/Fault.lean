import ModuleSurface.Json.Piece
import ModuleSurface.Number.Shortest
import ModuleSurface.Text.Quoted

/-!
# Fault — why a text is not the document that was expected, and where

A fault keeps what was still unread when it arose, so its place follows from the whole text.  A
fault about the content of a record is pending at first: it gets its place from the bracket that
the record stands in, after an attempt to read on to the end of that bracket.
-/

namespace ModuleSurface.Json

/-- The constructs that the end of a text can cut short. -/
inductive Construct
  | value
  | string
  | list
  | object
  deriving DecidableEq, Repr

inductive Found
  | null
  | boolean (value : Bool)
  | integer (value : Int)
  | float (negative : Bool) (value : Binary64)
  | text (content : List Char)
  | list
  | record
  deriving DecidableEq, Repr

inductive Expected
  | text
  | list
  | record (name : String)
  deriving DecidableEq, Repr

inductive Cause
  | ended (within : Construct)
  | misspeltWord
  | invalidNumber
  | numberOutOfRange
  | invalidEscape
  | controlCharacter
  | loneSurrogate
  | unfinishedEscape
  | invalidCodePoint
  | expectedItemEnd
  | expectedMemberEnd
  | keyNotText
  | expectedColon
  | expectedValue
  | trailingComma
  | trailingCharacters
  | wrongType (found : Found) (expected : Expected)
  | wrongLength (length : Nat) (record : String) (fields : Nat)
  | repeatedField (key : String)
  | missingField (key : String)
  | emptyName
  deriving DecidableEq, Repr

/-- The classes of faults: the text ends too early, breaks the grammar, or holds other data. -/
inductive Category
  | ending
  | grammar
  | data
  deriving DecidableEq, Repr

def Cause.category : Cause → Category
  | ended _ => .ending
  | wrongType .. | wrongLength .. | repeatedField _ | missingField _ | emptyName => .data
  | _ => .grammar

def Construct.words : Construct → String
  | value => "a value"
  | string => "a string"
  | list => "a list"
  | object => "an object"

def Found.words : Found → String
  | null => "null"
  | boolean true => "boolean " ++ "\x60true\x60"
  | boolean false => "boolean " ++ "\x60false\x60"
  | integer value => "integer \x60" ++ toString value ++ "\x60"
  | float negative value =>
      let sign := if negative then "-" else ""
      "floating point \x60" ++ sign ++ String.ofList value.render ++ "\x60"
  | text content => "string " ++ String.ofList (Text.quoted content)
  | list => "sequence"
  | record => "map"

def Expected.words : Expected → String
  | text => "a string"
  | list => "a sequence"
  | record name => "struct " ++ name

def Cause.message : Cause → String
  | ended within => "EOF while parsing " ++ within.words
  | misspeltWord => "expected ident"
  | invalidNumber => "invalid number"
  | numberOutOfRange => "number out of range"
  | invalidEscape => "invalid escape"
  | controlCharacter => "control character (\\u0000-\\u001F) found while parsing a string"
  | loneSurrogate => "lone leading surrogate in hex escape"
  | unfinishedEscape => "unexpected end of hex escape"
  | invalidCodePoint => "invalid unicode code point"
  | expectedItemEnd => "expected \x60,\x60 or \x60]\x60"
  | expectedMemberEnd => "expected \x60,\x60 or \x60\x7d\x60"
  | keyNotText => "key must be a string"
  | expectedColon => "expected \x60:\x60"
  | expectedValue => "expected value"
  | trailingComma => "trailing comma"
  | trailingCharacters => "trailing characters"
  | wrongType found expected => "invalid type: " ++ found.words ++ ", expected " ++ expected.words
  | wrongLength length record fields =>
      "invalid length " ++ toString length ++ ", expected struct " ++ record ++ " with " ++
        toString fields ++ " elements"
  | repeatedField key => "duplicate field \x60" ++ key ++ "\x60"
  | missingField key => "missing field \x60" ++ key ++ "\x60"
  | emptyName => "symbol name must not be empty"

/-- A cause with what was unread when it arose.  The place of a placed fault is `ahead` bytes
behind the start of the unread text, but not behind the end of the text. -/
inductive Fault
  | placed (cause : Cause) (unread : List Piece) (ahead : Nat)
  | pending (cause : Cause) (unread : List Piece)
  deriving DecidableEq, Repr

namespace Fault

def cause : Fault → Cause
  | placed cause _ _ => cause
  | pending cause _ => cause

/-- A fault at the start of the unread text. -/
def here (cause : Cause) (unread : List Piece) : Fault :=
  .placed cause unread 0

/-- A fault behind the next byte of the unread text. -/
def next (cause : Cause) (unread : List Piece) : Fault :=
  .placed cause unread 1

/-- A fault at the end of the text. -/
def ended (within : Construct) : Fault :=
  .placed (.ended within) [] 0

def place? (text : List Piece) : Fault → Option Place
  | placed _ unread ahead =>
      let size := Piece.widths text
      some (.ofOffset text (min size (size - Piece.widths unread + ahead)))
  | pending .. => none

end Fault

/-- A reader takes something from the start of a text and leaves the rest. -/
abbrev Reader (α : Type) := List Piece → Except Fault (α × List Piece)

end ModuleSurface.Json
