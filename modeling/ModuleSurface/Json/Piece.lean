/-!
# Piece — text that may hold bytes which are no characters

A reader of documents gets bytes.  They are cut into pieces: the characters that the bytes encode,
and the stray bytes that are part of no encoded character.  Widths and places are counted in
bytes, lines at line feeds.
-/

namespace ModuleSurface.Json

/-- A character, or a byte that is part of none. -/
inductive Piece
  | char (c : Char)
  | stray (byte : UInt8)
  deriving DecidableEq, Repr

namespace Piece

def width : Piece → Nat
  | char c => c.utf8Size
  | stray _ => 1

def widths (pieces : List Piece) : Nat :=
  pieces.foldr (fun piece size => piece.width + size) 0

def ofChars (text : List Char) : List Piece :=
  text.map char

def ofBytesFrom (bytes : ByteArray) (start : Nat) : List Piece :=
  if h : start < bytes.size then
    match bytes.utf8DecodeChar? start with
    | some c => char c :: ofBytesFrom bytes (start + c.utf8Size)
    | none => stray bytes[start] :: ofBytesFrom bytes (start + 1)
  else []
termination_by bytes.size - start
decreasing_by
  · have := c.utf8Size_pos
    omega
  · omega

def ofBytes (bytes : ByteArray) : List Piece :=
  ofBytesFrom bytes 0

/-- The characters of some pieces, if none of them is a stray byte. -/
def toChars? : List Piece → Option (List Char)
  | [] => some []
  | char c :: rest => (toChars? rest).map (c :: ·)
  | stray _ :: _ => none

@[simp] theorem toChars?_ofChars (text : List Char) : toChars? (ofChars text) = some text := by
  induction text with
  | nil => rfl
  | cons c rest ih => simp_all [ofChars, toChars?]

end Piece

/-- A place in a text, the line counted from one and the column in bytes from the line's start. -/
structure Place where
  line : Nat
  column : Nat
  deriving DecidableEq, Repr

namespace Place

/-- The place behind `offset` bytes of a text, when the text starts at the given place. -/
def advance (place : Place) : Nat → List Piece → Place
  | _, [] => place
  | offset, piece :: rest =>
      if offset < piece.width then { place with column := place.column + offset }
      else if piece = .char '\n' then advance ⟨place.line + 1, 0⟩ (offset - 1) rest
      else advance { place with column := place.column + piece.width } (offset - piece.width) rest

def ofOffset (text : List Piece) (offset : Nat) : Place :=
  advance ⟨1, 0⟩ offset text

end Place

end ModuleSurface.Json
