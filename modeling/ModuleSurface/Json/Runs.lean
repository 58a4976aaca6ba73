import ModuleSurface.Json.Value

/-!
# Runs — a document as it is handed on, a few characters at a time

A destination is not given the text of a document as a whole.  It gets a run of characters for each
bracket, separator and level of indentation; a string comes as its quotes, its escapes and the
stretches between them.
-/

namespace ModuleSurface.Json

/-- The stretch that has been passed without an escape, its last character first. -/
def flush (passed : List Char) : List (List Char) :=
  if passed.isEmpty then [] else [passed.reverse]

def contentRuns (passed : List Char) : List Char → List (List Char)
  | [] => flush passed
  | c :: rest =>
      if literalChar c = [c] then contentRuns (c :: passed) rest
      else flush passed ++ literalChar c :: contentRuns [] rest

def literalRuns (content : List Char) : List (List Char) :=
  ['"'] :: contentRuns [] content ++ [['"']]

/-- What is handed on before an item, and before a closing bracket as before a first item. -/
def Layout.breakRuns (first : Bool) (depth : Nat) : Layout → List (List Char)
  | compact => if first then [] else [[',']]
  | pretty => (if first then ['\n'] else [',', '\n']) :: List.replicate depth [' ', ' ']

mutual

def runs (layout : Layout) (depth : Nat) : Json → List (List Char)
  | null => [['n', 'u', 'l', 'l']]
  | boolean true => [['t', 'r', 'u', 'e']]
  | boolean false => [['f', 'a', 'l', 's', 'e']]
  | numeral digits => [digits]
  | string content => literalRuns content
  | array [] => [['['], [']']]
  | array (item :: items) =>
      ['['] :: layout.breakRuns true (depth + 1) ++ runs layout (depth + 1) item ++
        runsOfItems layout (depth + 1) items ++ layout.breakRuns true depth ++ [[']']]
  | object [] => [['{'], ['}']]
  | object ((key, value) :: members) =>
      ['{'] :: layout.breakRuns true (depth + 1) ++ literalRuns key ++ layout.colon ::
        runs layout (depth + 1) value ++ runsOfMembers layout (depth + 1) members ++
        layout.breakRuns true depth ++ [['}']]

def runsOfItems (layout : Layout) (depth : Nat) : List Json → List (List Char)
  | [] => []
  | item :: items =>
      layout.breakRuns false depth ++ runs layout depth item ++ runsOfItems layout depth items

def runsOfMembers (layout : Layout) (depth : Nat) : List (List Char × Json) → List (List Char)
  | [] => []
  | (key, value) :: members =>
      layout.breakRuns false depth ++ literalRuns key ++ layout.colon ::
        runs layout depth value ++ runsOfMembers layout depth members

end

end ModuleSurface.Json
