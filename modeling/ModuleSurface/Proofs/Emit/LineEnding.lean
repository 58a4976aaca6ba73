import ModuleSurface.Proofs.Emit.Cell
import ModuleSurface.Proofs.Emit.SignatureText
import ModuleSurface.Proofs.Emit.Undocumented
import ModuleSurface.Proofs.Signature.Characters

/-!
# LineEnding — the chosen line ending is the only thing that ends lines

Where names and signatures have no line feeds, no line of an emission has one, whatever the
documentation: it is cut into lines before anything is made of it (`Emitter.unbroken_lines`).  So
line feeds come from joining the lines alone, and the two line endings give the same content but
for a carriage return before each of them (`Emitter.emit_withReturns`).
-/

namespace ModuleSurface

/-! ## 1. Texts without line feeds -/

def Unbroken (text : String) : Prop :=
  '\n' ∉ text.toList

instance : DecidablePred Unbroken :=
  fun text => inferInstanceAs (Decidable ('\n' ∉ text.toList))

theorem unbroken_append_iff {left right : String} :
    Unbroken (left ++ right) ↔ Unbroken left ∧ Unbroken right := by
  rw [Unbroken, String.toList_append, List.mem_append, not_or]
  rfl

theorem unbroken_ofList_iff {text : List Char} : Unbroken (String.ofList text) ↔ '\n' ∉ text := by
  rw [Unbroken, String.toList_ofList]

theorem unbroken_textLines (text : List Char) : ∀ line ∈ Stub.textLines text, Unbroken line := by
  intro line hline
  obtain ⟨chars, hchars, rfl⟩ := List.mem_map.mp hline
  exact unbroken_ofList_iff.mpr ((Text.hasLines_lines text).not_mem chars hchars)

theorem unbroken_indent (indent : Indent) : Unbroken indent.text := by
  cases indent <;> decide

/-- Whether the name and the signature of a symbol have no line feeds. -/
structure Symbol.IsUnbroken (symbol : Symbol) : Prop where
  name : Unbroken symbol.name
  sig : Unbroken symbol.sig

/-- A signature that is written anew has no characters but marks and those it had. -/
theorem Symbol.IsUnbroken.signatureText {symbol : Symbol} (h : symbol.IsUnbroken) :
    Unbroken symbol.signatureText.value := by
  by_cases hempty : symbol.sig = ""
  · rw [signatureText_of_empty hempty]
    decide
  cases hparse : Signature.parse symbol.sig with
  | error fault =>
    rw [signatureText_of_error hempty hparse]
    exact h.sig
  | ok s =>
    rw [signatureText_of_ok hparse]
    exact fun hfeed => h.sig (Signature.mem_of_mem_render hparse hfeed (by decide))

theorem unbroken_blocks (block : Symbol → Logged (List String)) {symbols : List Symbol}
    (h : ∀ symbol ∈ symbols, ∀ line ∈ (block symbol).value, Unbroken line) :
    ∀ line ∈ (blocks block symbols).value, Unbroken line := by
  induction symbols with
  | nil => exact fun _ hline => absurd hline List.not_mem_nil
  | cons symbol symbols ih =>
    obtain ⟨hhead, hmore⟩ := List.forall_mem_cons.mp h
    show ∀ line ∈ "" :: (block symbol).value ++ (blocks block symbols).value, Unbroken line
    rw [List.forall_mem_append, List.forall_mem_cons]
    exact ⟨⟨by decide, hhead⟩, ih hmore⟩

/-! ## 2. Lines of a stub -/

namespace Stub

theorem unbroken_docLiteral {indent : String} {lines : List String} (hindent : Unbroken indent)
    (hlines : ∀ line ∈ lines, Unbroken line) :
    ∀ line ∈ docLiteral indent lines, Unbroken line := by
  have hquotes : Unbroken "\"\"\"" := by decide
  match lines with
  | [] =>
    rw [docLiteral, List.forall_mem_singleton, unbroken_append_iff]
    exact ⟨hindent, by decide⟩
  | [only] =>
    simp only [docLiteral, List.forall_mem_singleton, unbroken_append_iff, and_assoc]
    exact ⟨hindent, hquotes, hlines only List.mem_cons_self, hquotes⟩
  | first :: second :: more =>
    obtain ⟨hfirst, hmore⟩ := List.forall_mem_cons.mp hlines
    rw [docLiteral, List.forall_mem_append, List.forall_mem_cons, List.forall_mem_singleton]
    · simp only [unbroken_append_iff, and_assoc]
      refine ⟨hindent, hquotes, hfirst, ?_, hindent, hquotes⟩
      intro line hline
      obtain ⟨below, hbelow, rfl⟩ := List.mem_map.mp hline
      unfold docLine
      split
      · decide
      · exact unbroken_append_iff.mpr ⟨hindent, hmore below hbelow⟩
    · simp

variable {config : EmitConfig} {symbol : Symbol} (h : symbol.IsUnbroken)

include h

theorem unbroken_functionLines : ∀ line ∈ (functionLines config symbol).value, Unbroken line := by
  have hhead : Unbroken ("def " ++ symbol.name ++ symbol.signatureText.value ++ ":") := by
    simp only [unbroken_append_iff, and_assoc]
    exact ⟨by decide, h.name, h.signatureText, by decide⟩
  have hindent := unbroken_indent config.indent
  rw [functionLines, Logged.bind_value]
  split
  · show ∀ line ∈ _ :: (docLiteral config.indent.text
      (textLines (Docstring.escape symbol.doc.toList)) ++ [config.indent.text ++ "..."]),
        Unbroken line
    rw [List.forall_mem_cons, List.forall_mem_append, List.forall_mem_singleton]
    exact ⟨hhead, unbroken_docLiteral hindent (unbroken_textLines _),
      unbroken_append_iff.mpr ⟨hindent, by decide⟩⟩
  · show ∀ line ∈ [_ ++ " ..."], Unbroken line
    rw [List.forall_mem_singleton, unbroken_append_iff]
    exact ⟨hhead, by decide⟩

theorem unbroken_variableLines : ∀ line ∈ variableLines config symbol, Unbroken line := by
  rw [variableLines, List.forall_mem_append, List.forall_mem_singleton]
  constructor
  · split
    · intro line hline
      obtain ⟨written, hwritten, rfl⟩ := List.mem_map.mp hline
      unfold commentLine
      split
      · decide
      · exact unbroken_append_iff.mpr ⟨by decide, unbroken_textLines _ written hwritten⟩
    · exact fun _ hline => absurd hline List.not_mem_nil
  · simp only [unbroken_append_iff, and_assoc]
    refine ⟨h.name, by decide, ?_⟩
    split
    · exact h.sig
    · decide

end Stub

/-! ## 3. Lines of a reference page -/

namespace Markdown

theorem unbroken_code {text : String} (h : Unbroken text) : Unbroken (code text) :=
  unbroken_append_iff.mpr ⟨unbroken_append_iff.mpr ⟨by decide, h⟩, by decide⟩

theorem unbroken_cell (text : List Char) : Unbroken (String.ofList (cell text)) :=
  unbroken_ofList_iff.mpr (newline_not_mem_cell text)

theorem unbroken_tableHead (config : EmitConfig) : ∀ line ∈ tableHead config, Unbroken line := by
  unfold tableHead
  split <;> decide

variable {config : EmitConfig} {symbol : Symbol} (h : symbol.IsUnbroken)

include h

theorem unbroken_functionLines : ∀ line ∈ (functionLines config symbol).value, Unbroken line := by
  rw [functionLines, Logged.bind_value, Logged.pure_value, List.forall_mem_append]
  constructor
  · simp only [List.forall_mem_cons, unbroken_append_iff, and_assoc]
    refine ⟨by decide, unbroken_code h.name, by decide, by decide, by decide, h.name,
      h.signatureText, by decide⟩
  · split
    · exact List.forall_mem_cons.mpr ⟨by decide, unbroken_textLines symbol.doc.toList⟩
    · exact fun _ hline => absurd hline List.not_mem_nil

theorem unbroken_variableRow : Unbroken (variableRow config symbol) := by
  simp only [variableRow, unbroken_append_iff, and_assoc]
  refine ⟨by decide, unbroken_code h.name, by decide, newline_not_mem_typeCell symbol, by decide,
    ?_⟩
  split
  · simp only [unbroken_append_iff, and_assoc]
    exact ⟨by decide, unbroken_cell _, by decide⟩
  · decide

end Markdown

/-! ## 4. Lines of an emission -/

/-- Whether the name of a module, and all names and signatures in it, have no line feeds. -/
structure Module.IsUnbroken (module : Module) : Prop where
  name : Unbroken module.name
  symbols : ∀ partition, ∀ symbol ∈ module.partition partition, symbol.IsUnbroken

namespace Stub

theorem unbroken_importLines (symbols : List Symbol) :
    ∀ line ∈ importLines symbols, Unbroken line := by
  unfold importLines
  split <;> decide

theorem unbroken_variablesLines {config : EmitConfig} {symbols : List Symbol}
    (h : ∀ symbol ∈ symbols, symbol.IsUnbroken) :
    ∀ line ∈ variablesLines config symbols, Unbroken line := by
  unfold variablesLines
  split
  · exact fun _ hline => absurd hline List.not_mem_nil
  · refine List.forall_mem_cons.mpr ⟨by decide, fun line hline => ?_⟩
    obtain ⟨symbol, hsymbol, hmem⟩ := List.mem_flatMap.mp hline
    exact unbroken_variableLines (h symbol hsymbol) line hmem

theorem unbroken_lines {config : EmitConfig} {module : Module} (h : module.IsUnbroken) :
    ∀ line ∈ (lines config module).value, Unbroken line := by
  have hblocks := unbroken_blocks (functionLines config) fun symbol hsymbol =>
    unbroken_functionLines (h.symbols .funcs symbol hsymbol)
  rw [lines, functionsLines_eq_blocks, Logged.bind_value, Logged.pure_value]
  simp only [List.forall_mem_append, List.forall_mem_cons, unbroken_append_iff, and_assoc]
  exact ⟨by decide, h.name, by decide, by decide, by decide, unbroken_importLines _, hblocks,
    unbroken_variablesLines (h.symbols .vars)⟩

end Stub

namespace Markdown

theorem unbroken_variablesLines {config : EmitConfig} {symbols : List Symbol}
    (h : ∀ symbol ∈ symbols, symbol.IsUnbroken) :
    ∀ line ∈ variablesLines config symbols, Unbroken line := by
  unfold variablesLines
  split
  · exact fun _ hline => absurd hline List.not_mem_nil
  · simp only [List.forall_mem_append, List.forall_mem_map]
    exact ⟨⟨by decide, unbroken_tableHead config⟩, fun symbol hsymbol =>
      unbroken_variableRow (h symbol hsymbol)⟩

theorem unbroken_lines {config : EmitConfig} {module : Module} (h : module.IsUnbroken) :
    ∀ line ∈ (lines config module).value, Unbroken line := by
  have hblocks := unbroken_blocks (functionLines config) fun symbol hsymbol =>
    unbroken_functionLines (h.symbols .funcs symbol hsymbol)
  rw [lines, functionsLines_eq_blocks, Logged.bind_value, Logged.pure_value]
  simp only [List.forall_mem_append, List.forall_mem_singleton, unbroken_append_iff, and_assoc]
  refine ⟨by decide, unbroken_code h.name, ?_, ?_, unbroken_variablesLines (h.symbols .vars)⟩
  · split <;> decide
  · split
    · exact fun _ hline => absurd hline List.not_mem_nil
    · exact List.forall_mem_cons.mpr ⟨by decide, List.forall_mem_cons.mpr ⟨by decide, hblocks⟩⟩

end Markdown

namespace Emitter

theorem unbroken_lines (emitter : Emitter) (config : EmitConfig) {module : Module}
    (h : module.IsUnbroken) : ∀ line ∈ (emitter.lines config module).value, Unbroken line := by
  cases emitter with
  | stub => exact Stub.unbroken_lines h
  | markdown => exact Markdown.unbroken_lines h

/-- The lines are made before anything is joined. -/
theorem lines_lineEnding (emitter : Emitter) (config : EmitConfig) (ending : LineEnding)
    (module : Module) :
    emitter.lines { config with lineEnding := ending } module = emitter.lines config module := by
  cases emitter with
  | stub =>
    show Stub.lines _ module = Stub.lines config module
    simp only [Stub.lines, Stub.functionsLines_eq_blocks]
    rfl
  | markdown =>
    show Markdown.lines _ module = Markdown.lines config module
    simp only [Markdown.lines, Markdown.functionsLines_eq_blocks]
    rfl

end Emitter

/-! ## 5. The content under either line ending -/

/-- A text with a carriage return put before every line feed. -/
def Text.withReturns (text : List Char) : List Char :=
  text.flatMap fun c => if c = '\n' then ['\r', '\n'] else [c]

theorem Text.withReturns_append (left right : List Char) :
    withReturns (left ++ right) = withReturns left ++ withReturns right :=
  List.flatMap_append

theorem Text.withReturns_of_not_mem {line : List Char} (h : '\n' ∉ line) :
    withReturns line = line := by
  induction line with
  | nil => rfl
  | cons c rest ih =>
    have hc : c ≠ '\n' := fun heq => h (heq ▸ List.mem_cons_self)
    have hrest : '\n' ∉ rest := fun hmem => h (List.mem_cons_of_mem _ hmem)
    rw [withReturns, List.flatMap_cons, if_neg hc]
    exact congrArg (c :: ·) (ih hrest)

theorem Text.withReturns_intercalate {lines : List (List Char)} (h : ∀ line ∈ lines, '\n' ∉ line) :
    withReturns (['\n'].intercalate lines) = ['\r', '\n'].intercalate lines := by
  induction lines with
  | nil => rfl
  | cons line more ih =>
    obtain ⟨hline, hmore⟩ := List.forall_mem_cons.mp h
    cases more with
    | nil =>
      rw [List.intercalate_singleton, List.intercalate_singleton]
      exact withReturns_of_not_mem hline
    | cons second more =>
      rw [List.intercalate_cons_cons, List.intercalate_cons_cons, withReturns_append,
        withReturns_append, withReturns_of_not_mem hline, ih hmore]
      rfl

theorem EmitConfig.toList_joinLines (config : EmitConfig) (lines : List String) :
    (config.joinLines lines).toList =
      config.lineEnding.text.toList.intercalate (lines.map String.toList) ++
        config.lineEnding.text.toList := by
  rw [joinLines, String.toList_append, String.toList_intercalate]

theorem EmitConfig.joinLines_crlf (config : EmitConfig) {lines : List String}
    (h : ∀ line ∈ lines, Unbroken line) :
    ({ config with lineEnding := .crlf }.joinLines lines).toList =
      Text.withReturns ({ config with lineEnding := .lf }.joinLines lines).toList := by
  have hlines : ∀ line ∈ lines.map String.toList, '\n' ∉ line := by
    intro line hline
    obtain ⟨written, hwritten, rfl⟩ := List.mem_map.mp hline
    exact h written hwritten
  have hcrlf : LineEnding.crlf.text.toList = ['\r', '\n'] := rfl
  have hlf : LineEnding.lf.text.toList = ['\n'] := rfl
  simp only [toList_joinLines, hcrlf, hlf, Text.withReturns_append,
    Text.withReturns_intercalate hlines]
  rfl

def EmittedFile.withReturns (file : EmittedFile) : EmittedFile :=
  { file with content := String.ofList (Text.withReturns file.content.toList) }

namespace Emitter

theorem emit_value (emitter : Emitter) (config : EmitConfig) (ending : LineEnding)
    (module : Module) :
    (emitter.emit { config with lineEnding := ending } module).value =
      (emitter.path module.name).map fun path =>
        ⟨module.name, path, { config with lineEnding := ending }.joinLines
          (emitter.lines config module).value⟩ := by
  rw [emit, Logged.bind_value, Logged.bind_value, Logged.pure_value, lines_lineEnding]

/-- Where names and signatures have no line feeds, the two line endings give the same files and
faults but for the carriage returns, and content always ends in the chosen one. -/
theorem emit_withReturns (emitter : Emitter) (config : EmitConfig) (module : Module)
    (h : module.IsUnbroken) :
    (emitter.emit { config with lineEnding := .crlf } module).value =
        (emitter.emit { config with lineEnding := .lf } module).value.map EmittedFile.withReturns ∧
      ∀ file, (emitter.emit config module).value = .ok file →
        config.lineEnding.text.toList <:+ file.content.toList := by
  constructor
  · -- the path is that of the name, so the two runs differ in nothing but how lines are joined
    have hcontent := config.joinLines_crlf (emitter.unbroken_lines config h)
    rw [emit_value, emit_value]
    cases emitter.path module.name with
    | error fault => rfl
    | ok path =>
      simp only [Except.map, EmittedFile.withReturns, ← hcontent, String.ofList_toList]
  · intro file hfile
    have hvalue := emitter.emit_value config config.lineEnding module
    rw [hfile] at hvalue
    cases hpath : emitter.path module.name with
    | error fault =>
      rw [hpath] at hvalue
      contradiction
    | ok path =>
      rw [hpath] at hvalue
      rw [Except.ok.inj hvalue, EmitConfig.toList_joinLines]
      exact List.suffix_append _ _

/-- Documentation with all kinds of line breaks, and a signature that is written anew. -/
def breaksSample : Module :=
  ⟨"pkg.m", [⟨"scale", .function, "One.\r\nTwo\rthree\r\r\n\n\"\"\"\n", "(a,b=1)->int", by decide⟩],
    [⟨"LIMIT", .variable, "a | b\r\n\nc\n", "int | None", by decide⟩]⟩

def breaksStub : EmittedFile where
  module := "pkg.m"
  path := "pkg/m.pyi"
  content := "# Type stubs for module `pkg.m`.\n# Generated by pygen. Do not edit.\n\n" ++
    "def scale(a, b=1) -> int:\n\t\"\"\"One.\n\tTwo\rthree\r\n\n\t\\\"\\\"\\\"\n\t\"\"\"\n" ++
    "\t...\n\n# a | b\n#\n# c\nLIMIT: int | None\n"

def breaksPage : EmittedFile where
  module := "pkg.m"
  path := "pkg.m.md"
  content := "# `pkg.m`\n\n## Functions\n\n### `scale`\n\n```python\ndef scale(a, b=1) -> int\n" ++
    "```\n\nOne.\nTwo\rthree\r\n\n\"\"\"\n\n## Variables\n\n| Name | Type | Description |\n" ++
    "| --- | --- | --- |\n| `LIMIT` | `int \\| None` | a \\| b<br><br>c |\n"

theorem emit_withReturns_breaksSample :
    breaksSample.IsUnbroken ∧
      (stub.emit ⟨true, .tabs, .crlf⟩ breaksSample).value =
        (stub.emit ⟨true, .tabs, .lf⟩ breaksSample).value.map EmittedFile.withReturns ∧
      (markdown.emit ⟨true, .tabs, .crlf⟩ breaksSample).value =
        (markdown.emit ⟨true, .tabs, .lf⟩ breaksSample).value.map EmittedFile.withReturns ∧
      (stub.emit ⟨true, .tabs, .lf⟩ breaksSample).value = .ok breaksStub ∧
      (markdown.emit ⟨true, .tabs, .lf⟩ breaksSample).value = .ok breaksPage := by
  have hsample : breaksSample.IsUnbroken := by
    refine ⟨by decide, fun partition symbol hsymbol => ?_⟩
    cases partition <;> obtain rfl := List.mem_singleton.mp hsymbol <;>
      exact ⟨by decide, by decide⟩
  exact ⟨hsample, (stub.emit_withReturns ⟨true, .tabs, .lf⟩ breaksSample hsample).1,
    (markdown.emit_withReturns ⟨true, .tabs, .lf⟩ breaksSample hsample).1, by decide +kernel,
    by decide +kernel⟩

end Emitter

end ModuleSurface
