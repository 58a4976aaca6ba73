import ModuleSurface.Emit.Docstring
import ModuleSurface.Emit.Settings
import ModuleSurface.Emit.SignatureText
import ModuleSurface.Text.Lines

/-!
# Stub — a module as a type stub

A function is a declaration without a body, its documentation a literal below it.  A variable is
an annotated name, its documentation in comments above it.
-/

namespace ModuleSurface.Stub

def textLines (text : List Char) : List String :=
  (Text.lines text).map String.ofList

/-- A line below the first of a documentation; an empty line is not indented. -/
def docLine (indent line : String) : String :=
  if line.isEmpty then "" else indent ++ line

/-- The lines of a documentation literal, from the lines of its escaped text.  The closing quotes
stand on the only line, or on a line of their own. -/
def docLiteral (indent : String) : List String → List String
  | [] => [indent ++ "\"\"\"\"\"\""]
  | [line] => [indent ++ "\"\"\"" ++ line ++ "\"\"\""]
  | line :: lines =>
      (indent ++ "\"\"\"" ++ line) :: lines.map (docLine indent) ++ [indent ++ "\"\"\""]

/-- The lines of a function below its head, given the documentation to show. -/
def functionBody (indent doc : String) : List String :=
  docLiteral indent (textLines (Docstring.escape doc.toList)) ++ [indent ++ "..."]

def functionLines (config : EmitConfig) (symbol : Symbol) : Logged (List String) := do
  let head := "def " ++ symbol.name ++ (← symbol.signatureText) ++ ":"
  if config.includeDocs && symbol.hasDoc then
    return head :: functionBody config.indent.text symbol.doc
  else return [head ++ " ..."]

def commentLine (line : String) : String :=
  if line.isEmpty then "#" else "# " ++ line

def variableLines (config : EmitConfig) (symbol : Symbol) : List String :=
  (if config.includeDocs && symbol.hasDoc then (textLines symbol.doc.toList).map commentLine
    else []) ++
    [symbol.name ++ ": " ++ if symbol.hasSig then symbol.sig else "Any"]

/-- The lines of functions, each after an empty line. -/
def functionsLines (config : EmitConfig) : List Symbol → Logged (List String)
  | [] => pure []
  | symbol :: symbols => do
      let lines ← functionLines config symbol
      return "" :: lines ++ (← functionsLines config symbols)

/-- The lines of variables, after an empty line if there are any. -/
def variablesLines (config : EmitConfig) (symbols : List Symbol) : List String :=
  if symbols.isEmpty then [] else "" :: symbols.flatMap (variableLines config)

/-- What the annotations of the variables need. -/
def importLines (symbols : List Symbol) : List String :=
  if symbols.any (fun symbol => !symbol.hasSig) then ["", "from typing import Any"] else []

def lines (config : EmitConfig) (module : Module) : Logged (List String) := do
  let funcs ← functionsLines config module.funcs
  return ["# Type stubs for module \x60" ++ module.name ++ "\x60.",
      "# Generated by pygen. Do not edit."] ++
    importLines module.vars ++ funcs ++ variablesLines config module.vars

end ModuleSurface.Stub
