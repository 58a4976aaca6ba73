import Mathlib.Data.List.Forall2
import ModuleSurface.Emit.Emitter

/-!
# Undocumented — without documentation the output depends on names and signatures alone

Two symbols have the same face if they differ in nothing but kind and documentation.  No function
that makes lines can tell such symbols apart once documentation is left out, and then nothing is
indented either, so modules of the same face give the same files, faults and events
(`Emitter.emit_eq_of_sameFace`).
-/

namespace ModuleSurface

/-! ## 1. Functions, one block after another -/

/-- Blocks of lines, one for each symbol, each after an empty line. -/
def blocks (block : Symbol → Logged (List String)) : List Symbol → Logged (List String)
  | [] => pure []
  | symbol :: symbols => do
      let lines ← block symbol
      return "" :: lines ++ (← blocks block symbols)

theorem Stub.functionsLines_eq_blocks (config : EmitConfig) (symbols : List Symbol) :
    functionsLines config symbols = blocks (functionLines config) symbols := by
  induction symbols with
  | nil => rfl
  | cons symbol symbols ih => rw [functionsLines, blocks, ih]

theorem Markdown.functionsLines_eq_blocks (config : EmitConfig) (symbols : List Symbol) :
    functionsLines config symbols = blocks (functionLines config) symbols := by
  induction symbols with
  | nil => rfl
  | cons symbol symbols ih => rw [functionsLines, blocks, ih]

/-! ## 2. Symbols of the same face -/

namespace Symbol

/-- Whether two symbols are the same but for kind and documentation. -/
structure SameFace (symbol other : Symbol) : Prop where
  name : symbol.name = other.name
  sig : symbol.sig = other.sig

variable {symbol other : Symbol}

theorem SameFace.hasSig (h : symbol.SameFace other) : symbol.hasSig = other.hasSig := by
  rw [Symbol.hasSig, Symbol.hasSig, h.sig]

/-- What is told of a signature that cannot be read names the symbol and the signature. -/
theorem SameFace.signatureText (h : symbol.SameFace other) :
    symbol.signatureText = other.signatureText := by
  rw [Symbol.signatureText, Symbol.signatureText, h.hasSig, h.name, h.sig]

end Symbol

section Lists

variable {symbols others : List Symbol} (h : List.Forall₂ Symbol.SameFace symbols others)

include h

theorem isEmpty_eq_of_sameFace : symbols.isEmpty = others.isEmpty := by
  cases h <;> rfl

theorem map_eq_of_sameFace {α : Type} {f g : Symbol → α}
    (hfg : ∀ symbol other, Symbol.SameFace symbol other → f symbol = g other) :
    symbols.map f = others.map g := by
  rw [← List.forall₂_eq_eq_eq, List.forall₂_map_left_iff, List.forall₂_map_right_iff]
  exact h.imp hfg

theorem any_eq_of_sameFace {p : Symbol → Bool}
    (hp : ∀ symbol other, Symbol.SameFace symbol other → p symbol = p other) :
    symbols.any p = others.any p := by
  induction h with
  | nil => rfl
  | cons hhead _ ih => rw [List.any_cons, List.any_cons, hp _ _ hhead, ih]

theorem blocks_eq_of_sameFace {block block' : Symbol → Logged (List String)}
    (hblock : ∀ symbol other, Symbol.SameFace symbol other → block symbol = block' other) :
    blocks block symbols = blocks block' others := by
  induction h with
  | nil => rfl
  | cons hhead _ ih => rw [blocks, blocks, hblock _ _ hhead, ih]

end Lists

/-! ## 3. Lines without documentation -/

section Lines

variable {config config' : EmitConfig} (hdocs : config.includeDocs = false)
  (hdocs' : config'.includeDocs = false)

include hdocs hdocs'

namespace Stub

theorem functionLines_eq_of_sameFace {symbol other : Symbol} (h : symbol.SameFace other) :
    functionLines config symbol = functionLines config' other := by
  simp only [functionLines, hdocs, hdocs', Bool.false_and, Bool.false_eq_true, if_false, h.name,
    h.signatureText]

theorem variableLines_eq_of_sameFace {symbol other : Symbol} (h : symbol.SameFace other) :
    variableLines config symbol = variableLines config' other := by
  simp only [variableLines, hdocs, hdocs', Bool.false_and, Bool.false_eq_true, if_false, h.name,
    h.hasSig, h.sig]

theorem variablesLines_eq_of_sameFace {symbols others : List Symbol}
    (h : List.Forall₂ Symbol.SameFace symbols others) :
    variablesLines config symbols = variablesLines config' others := by
  rw [variablesLines, variablesLines, isEmpty_eq_of_sameFace h, List.flatMap_def, List.flatMap_def,
    map_eq_of_sameFace h fun _ _ => variableLines_eq_of_sameFace hdocs hdocs']

end Stub

namespace Markdown

theorem functionLines_eq_of_sameFace {symbol other : Symbol} (h : symbol.SameFace other) :
    functionLines config symbol = functionLines config' other := by
  simp only [functionLines, hdocs, hdocs', Bool.false_and, Bool.false_eq_true, if_false, h.name,
    h.signatureText]

theorem variableRow_eq_of_sameFace {symbol other : Symbol} (h : symbol.SameFace other) :
    variableRow config symbol = variableRow config' other := by
  simp only [variableRow, typeCell, hdocs, hdocs', Bool.false_eq_true, if_false, h.name, h.hasSig,
    h.sig]

theorem variablesLines_eq_of_sameFace {symbols others : List Symbol}
    (h : List.Forall₂ Symbol.SameFace symbols others) :
    variablesLines config symbols = variablesLines config' others := by
  rw [variablesLines, variablesLines, isEmpty_eq_of_sameFace h, tableHead, tableHead, hdocs, hdocs',
    map_eq_of_sameFace h fun _ _ => variableRow_eq_of_sameFace hdocs hdocs']

end Markdown

end Lines

/-! ## 4. Modules of the same face -/

/-- Whether two modules have the same name and, place by place, symbols of the same face. -/
structure Module.SameFace (module other : Module) : Prop where
  name : module.name = other.name
  partition : ∀ partition,
    List.Forall₂ Symbol.SameFace (module.partition partition) (other.partition partition)

namespace Emitter

theorem lines_eq_of_sameFace (emitter : Emitter) {config config' : EmitConfig}
    (hdocs : config.includeDocs = false) (hdocs' : config'.includeDocs = false)
    {module other : Module} (h : module.SameFace other) :
    emitter.lines config module = emitter.lines config' other := by
  have hfuncs : List.Forall₂ Symbol.SameFace module.funcs other.funcs := h.partition .funcs
  have hvars : List.Forall₂ Symbol.SameFace module.vars other.vars := h.partition .vars
  cases emitter with
  | stub =>
    have hblocks := blocks_eq_of_sameFace hfuncs fun _ _ =>
      Stub.functionLines_eq_of_sameFace hdocs hdocs'
    -- the import depends on whether some variable has no annotation
    have himports : Stub.importLines module.vars = Stub.importLines other.vars := by
      rw [Stub.importLines, Stub.importLines,
        any_eq_of_sameFace hvars fun _ _ hface => congrArg not hface.hasSig]
    have htable := Stub.variablesLines_eq_of_sameFace hdocs hdocs' hvars
    show Stub.lines config module = Stub.lines config' other
    rw [Stub.lines, Stub.lines, Stub.functionsLines_eq_blocks, Stub.functionsLines_eq_blocks,
      hblocks, himports, htable, h.name]
  | markdown =>
    have hblocks := blocks_eq_of_sameFace hfuncs fun _ _ =>
      Markdown.functionLines_eq_of_sameFace hdocs hdocs'
    have htable := Markdown.variablesLines_eq_of_sameFace hdocs hdocs' hvars
    show Markdown.lines config module = Markdown.lines config' other
    rw [Markdown.lines, Markdown.lines, Markdown.functionsLines_eq_blocks,
      Markdown.functionsLines_eq_blocks, hblocks, htable, h.name, Module.isEmpty, Module.isEmpty,
      isEmpty_eq_of_sameFace hfuncs, isEmpty_eq_of_sameFace hvars]

/-- With documentation left out, modules of the same face are emitted alike, whatever the
indentation: the same file or fault, and the same events. -/
theorem emit_eq_of_sameFace (emitter : Emitter) {config config' : EmitConfig}
    (hdocs : config.includeDocs = false) (hdocs' : config'.includeDocs = false)
    (hending : config.lineEnding = config'.lineEnding) {module other : Module}
    (h : module.SameFace other) : emitter.emit config module = emitter.emit config' other := by
  have hjoin : config.joinLines = config'.joinLines := by
    funext lines
    rw [EmitConfig.joinLines, EmitConfig.joinLines, hending]
  rw [emit, emit, emitter.lines_eq_of_sameFace hdocs hdocs' h, h.name, hjoin]

/-- A function with a signature that cannot be read, and a variable without any. -/
def facedSample (kind : Kind) (doc : String) : Module :=
  ⟨"pkg.m", [⟨"shift", kind, doc, "(a, b", by decide⟩], [⟨"WIDTH", kind, doc, "", by decide⟩]⟩

theorem sameFace_facedSample (kind other : Kind) (doc text : String) :
    (facedSample kind doc).SameFace (facedSample other text) := by
  refine ⟨rfl, fun partition => ?_⟩
  cases partition <;> exact .cons ⟨rfl, rfl⟩ .nil

def facedStub : EmittedFile where
  module := "pkg.m"
  path := "pkg/m.pyi"
  content := "# Type stubs for module `pkg.m`.\r\n# Generated by pygen. Do not edit.\r\n\r\n" ++
    "from typing import Any\r\n\r\ndef shift(a, b: ...\r\n\r\nWIDTH: Any\r\n"

def facedPage : EmittedFile where
  module := "pkg.m"
  path := "pkg.m.md"
  content := "# `pkg.m`\r\n\r\n## Functions\r\n\r\n### `shift`\r\n\r\n```python\r\n" ++
    "def shift(a, b\r\n```\r\n\r\n## Variables\r\n\r\n| Name | Type |\r\n| --- | --- |\r\n" ++
    "| `WIDTH` |  |\r\n"

theorem emit_eq_facedSample :
    (facedSample .function "Adds.\r\n\r\n  a | b").SameFace (facedSample (.other "class") "") ∧
      stub.emit ⟨false, .tabs, .crlf⟩ (facedSample .function "Adds.\r\n\r\n  a | b") =
        stub.emit ⟨false, .spaces2, .crlf⟩ (facedSample (.other "class") "") ∧
      markdown.emit ⟨false, .tabs, .crlf⟩ (facedSample .function "Adds.\r\n\r\n  a | b") =
        markdown.emit ⟨false, .spaces2, .crlf⟩ (facedSample (.other "class") "") ∧
      (stub.emit ⟨false, .spaces2, .crlf⟩ (facedSample (.other "class") "")).value =
        .ok facedStub ∧
      (markdown.emit ⟨false, .spaces2, .crlf⟩ (facedSample (.other "class") "")).value =
        .ok facedPage := by
  have hface := sameFace_facedSample .function (.other "class") "Adds.\r\n\r\n  a | b" ""
  exact ⟨hface, stub.emit_eq_of_sameFace rfl rfl rfl hface,
    markdown.emit_eq_of_sameFace rfl rfl rfl hface, by decide +kernel, by decide +kernel⟩

end Emitter

end ModuleSurface
