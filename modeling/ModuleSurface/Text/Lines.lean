/-!
# Lines — cutting a text at a separator and into lines

`split` keeps every piece, `lines` follows the rule for text files: a line feed ends a line, one
carriage return directly before it belongs to the ending, and a text that ends in a line feed
has no further empty line.
-/

namespace ModuleSurface.Text

/-- The pieces of a text between the occurrences of a separator; always at least one. -/
def split (separator : Char) : List Char → List (List Char)
  | [] => [[]]
  | c :: rest =>
      if c = separator then [] :: split separator rest
      else
        match split separator rest with
        | [] => [[c]]
        | piece :: pieces => (c :: piece) :: pieces

def join (separator : List Char) : List (List Char) → List Char
  | [] => []
  | [piece] => piece
  | piece :: pieces => piece ++ separator ++ join separator pieces

/-- The lines of a text.  A carriage return that no line feed follows is an ordinary character. -/
def lines : List Char → List (List Char)
  | [] => []
  | '\n' :: rest => [] :: lines rest
  | '\r' :: '\n' :: rest => [] :: lines rest
  | c :: rest =>
      match lines rest with
      | [] => [[c]]
      | line :: more => (c :: line) :: more

theorem split_ne_nil (separator : Char) (text : List Char) : split separator text ≠ [] := by
  cases text with
  | nil => simp [split]
  | cons c rest =>
    rw [split]
    split
    · simp
    · split <;> simp

theorem join_split (separator : Char) (text : List Char) :
    join [separator] (split separator text) = text := by
  induction text with
  | nil => rfl
  | cons c rest ih =>
    have hne := split_ne_nil separator rest
    rw [split]
    by_cases hc : c = separator
    · rw [if_pos hc]
      cases hs : split separator rest with
      | nil => exact absurd hs hne
      | cons piece pieces => rw [hs] at ih; simp [join, ih, hc]
    · rw [if_neg hc]
      cases hs : split separator rest with
      | nil => exact absurd hs hne
      | cons piece pieces =>
        rw [hs] at ih
        cases pieces with
        | nil => simpa [join] using ih
        | cons second more => simpa [join] using ih

end ModuleSurface.Text
