/-!
# Docstring — documentation inside a literal of three double quotes

A backslash is doubled.  Double quotes are left alone unless they could be taken for the end of
the literal: a run of three or more, or the run that ends the text.
-/

namespace ModuleSurface.Docstring

/-- The number of double quotes at the start of a text. -/
def quoteRun : List Char → Nat
  | '"' :: rest => quoteRun rest + 1
  | _ => 0

/-- Whether a run of quotes has to be escaped: it is long, or nothing follows it. -/
def needsEscape (run : Nat) (after : List Char) : Bool :=
  run ≥ 3 || after.isEmpty

def writeRun : Bool → Nat → List Char
  | _, 0 => []
  | true, run + 1 => '\\' :: '"' :: writeRun true run
  | false, run + 1 => '"' :: writeRun false run

/-- A text for the inside of the literal.  `pending` is the length of the run of double quotes
that stands directly before the text and has not been written yet. -/
def escapeFrom (pending : Nat) : List Char → List Char
  | [] => writeRun (needsEscape pending []) pending
  | c :: rest =>
      if c = '"' then escapeFrom (pending + 1) rest
      else
        writeRun (needsEscape pending (c :: rest)) pending ++
          (if c = '\\' then ['\\', '\\'] else [c]) ++ escapeFrom 0 rest

def escape (text : List Char) : List Char :=
  escapeFrom 0 text

end ModuleSurface.Docstring
