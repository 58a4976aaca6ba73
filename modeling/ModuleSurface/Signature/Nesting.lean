/-!
# Nesting — brackets and quotes in the text of a signature

A reading of a text keeps the brackets that are open and whether it stands inside a quoted
string.  Inside a string brackets do not count, and a backslash takes the next character with it.
The scans below cut a text only where the reading is at the top, outside all brackets and
strings.
-/

namespace ModuleSurface.Signature

/-- Where a reading stands with respect to quotes. -/
inductive Quoting
  | outside
  | inside (quote : Char)
  | escaping (quote : Char)
  deriving DecidableEq, Repr

/-- The closing brackets that are awaited, innermost first, and the state of quoting. -/
structure Nesting where
  closers : List Char
  quoting : Quoting
  deriving DecidableEq, Repr

def closer? : Char → Option Char
  | '(' => some ')'
  | '[' => some ']'
  | '{' => some '}'
  | _ => none

def isCloser (c : Char) : Bool :=
  c == ')' || c == ']' || c == '}'

def isQuote (c : Char) : Bool :=
  c == '\'' || c == '"'

namespace Nesting

def start : Nesting :=
  ⟨[], .outside⟩

/-- Whether the reading stands outside all brackets and strings. -/
def isTop (n : Nesting) : Bool :=
  n.closers.isEmpty && n.quoting == .outside

/-- Reads one character that is outside all strings; none if it closes what is not open. -/
def stepOutside (closers : List Char) (c : Char) : Option Nesting :=
  if isQuote c then some ⟨closers, .inside c⟩
  else
    match closer? c with
    | some closer => some ⟨closer :: closers, .outside⟩
    | none =>
        if isCloser c then
          match closers with
          | [] => none
          | awaited :: outer => if awaited = c then some ⟨outer, .outside⟩ else none
        else some ⟨closers, .outside⟩

/-- Reads one character; none if it is a bracket that closes what is not open. -/
def step (n : Nesting) (c : Char) : Option Nesting :=
  match n.quoting with
  | .escaping quote => some ⟨n.closers, .inside quote⟩
  | .inside quote =>
      if c = '\\' then some ⟨n.closers, .escaping quote⟩
      else if c = quote then some ⟨n.closers, .outside⟩
      else some n
  | .outside => stepOutside n.closers c

end Nesting

/-! ## 1. Cutting at the top -/

/-- Cuts a text behind the character that brings the reading back to the top; the character
itself belongs to neither part. -/
def closeGroup (n : Nesting) : List Char → Option (List Char × List Char)
  | [] => none
  | c :: rest =>
      match n.step c with
      | none => none
      | some next =>
          if next.isTop then some ([], rest)
          else (closeGroup next rest).map fun (inner, after) => (c :: inner, after)

def consToHead (c : Char) : List (List Char) → List (List Char)
  | [] => [[c]]
  | piece :: pieces => (c :: piece) :: pieces

/-- The pieces of a text between separators at the top; none if brackets or quotes are amiss. -/
def topPieces (separator : Char) (n : Nesting) : List Char → Option (List (List Char))
  | [] => if n.isTop then some [[]] else none
  | c :: rest =>
      match n.step c with
      | none => none
      | some next =>
          (topPieces separator next rest).map fun pieces =>
            if n.isTop && c == separator then [] :: pieces else consToHead c pieces

/-- What stands before and after the first occurrence of a character at the top. -/
def topCut (target : Char) (n : Nesting) : List Char → Option (List Char × List Char)
  | [] => none
  | c :: rest =>
      match n.step c with
      | none => none
      | some next =>
          if n.isTop && c == target then some ([], rest)
          else (topCut target next rest).map fun (before, after) => (c :: before, after)

end ModuleSurface.Signature
