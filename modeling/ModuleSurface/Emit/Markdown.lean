import ModuleSurface.Emit.Settings
import ModuleSurface.Emit.SignatureText
import ModuleSurface.Text.Lines

/-!
# Markdown — a module as a reference page

A function has a heading, its declaration in a fenced block and its documentation below; the
variables make up a table.  In a cell of the table a bar is escaped and a line ending becomes a
break, so a row stays one row.
-/

namespace ModuleSurface.Markdown

/-- A bar with the backslash that keeps it inside a cell. -/
def escapeBars (text : List Char) : List Char :=
  text.flatMap fun c => if c = '|' then ['\\', '|'] else [c]

def cell (text : List Char) : List Char :=
  Text.join ['<', 'b', 'r', '>'] (Text.lines (escapeBars (Text.trim text)))

/-- A text between backticks. -/
def code (text : String) : String :=
  "\x60" ++ text ++ "\x60"

def functionLines (config : EmitConfig) (symbol : Symbol) : Logged (List String) := do
  let signature ← symbol.signatureText
  return ["### " ++ code symbol.name, "", "\x60\x60\x60python",
      "def " ++ symbol.name ++ signature, "\x60\x60\x60"] ++
    if config.includeDocs && symbol.hasDoc then
      "" :: (Text.lines symbol.doc.toList).map String.ofList
    else []

def typeCell (symbol : Symbol) : String :=
  if symbol.hasSig then code (String.ofList (cell symbol.sig.toList)) else ""

def variableRow (config : EmitConfig) (symbol : Symbol) : String :=
  "| " ++ code symbol.name ++ " | " ++ typeCell symbol ++ " |" ++
    if config.includeDocs then " " ++ String.ofList (cell symbol.doc.toList) ++ " |" else ""

/-- The lines of functions, each after an empty line. -/
def functionsLines (config : EmitConfig) : List Symbol → Logged (List String)
  | [] => pure []
  | symbol :: symbols => do
      let lines ← functionLines config symbol
      return "" :: lines ++ (← functionsLines config symbols)

def tableHead (config : EmitConfig) : List String :=
  if config.includeDocs then ["| Name | Type | Description |", "| --- | --- | --- |"]
  else ["| Name | Type |", "| --- | --- |"]

/-- The table of variables, if there are any. -/
def variablesLines (config : EmitConfig) (symbols : List Symbol) : List String :=
  if symbols.isEmpty then []
  else ["", "## Variables", ""] ++ tableHead config ++ symbols.map (variableRow config)

def lines (config : EmitConfig) (module : Module) : Logged (List String) := do
  let funcs ← functionsLines config module.funcs
  return ["# " ++ code module.name] ++
    (if module.isEmpty then ["", "This module has no public symbols."] else []) ++
    (if module.funcs.isEmpty then [] else "" :: "## Functions" :: funcs) ++
    variablesLines config module.vars

end ModuleSurface.Markdown
