import Mathlib.Data.List.Forall2
import ModuleSurface.Emit.Stub
import ModuleSurface.Proofs.Emit.Literal

/-!
# Docstring — the documentation below the head of a function is read back

Below its head a function has an indentation, one literal and a last line.  The literal ends where
that line begins and holds the lines of the documentation (`readDoc?_eq_iff`), except for a
documentation of one line that is broken behind one or two double quotes: these quotes are not
escaped, for the break follows them, and then stand directly before the closing quotes.
-/

namespace ModuleSurface

/-! ## 1. Cutting at line endings -/

/-- A text cut at every carriage return that a line feed follows. -/
def Text.cutReturns : List Char → List (List Char)
  | [] => [[]]
  | '\r' :: '\n' :: rest => [] :: cutReturns rest
  | c :: rest =>
      match cutReturns rest with
      | [] => [[c]]
      | piece :: pieces => (c :: piece) :: pieces

def LineEnding.cut : LineEnding → List Char → List (List Char)
  | .lf => Text.split '\n'
  | .crlf => Text.cutReturns

theorem Text.cutReturns_of_not_mem {line : List Char} (hfeed : '\n' ∉ line) :
    cutReturns line = [line] := by
  induction line with
  | nil => rfl
  | cons c rest ih =>
    have hrest : '\n' ∉ rest := fun h => hfeed (List.mem_cons_of_mem _ h)
    rw [cutReturns, ih hrest]
    intro tail _ htail
    exact hrest (by simp [htail])

theorem Text.cutReturns_append {line : List Char} (hfeed : '\n' ∉ line) (rest : List Char) :
    cutReturns (line ++ '\r' :: '\n' :: rest) = line :: cutReturns rest := by
  induction line with
  | nil => rw [List.nil_append, cutReturns]
  | cons c more ih =>
    have hmore : '\n' ∉ more := fun h => hfeed (List.mem_cons_of_mem _ h)
    rw [List.cons_append, cutReturns, ih hmore]
    intro tail _ htail
    cases more with
    | nil => exact absurd (List.cons.inj htail).1 (by decide)
    | cons d more =>
      rw [List.cons_append, List.cons.injEq] at htail
      exact hmore (by simp [htail.1])

namespace LineEnding

theorem cut_of_not_mem (ending : LineEnding) {line : List Char} (hfeed : '\n' ∉ line) :
    ending.cut line = [line] := by
  cases ending with
  | lf => exact Text.split_of_not_mem hfeed
  | crlf => exact Text.cutReturns_of_not_mem hfeed

theorem cut_append (ending : LineEnding) {line : List Char} (hfeed : '\n' ∉ line)
    (rest : List Char) :
    ending.cut (line ++ ending.text.toList ++ rest) = line :: ending.cut rest := by
  rw [List.append_assoc]
  cases ending with
  | lf =>
    show Text.split '\n' (line ++ '\n' :: rest) = _
    rw [Text.split_append_separator, Text.split_of_not_mem hfeed]
    rfl
  | crlf => exact Text.cutReturns_append hfeed rest

/-- Lines that were joined by a line ending are told apart again. -/
theorem cut_intercalate (ending : LineEnding) {lines : List (List Char)}
    (hfeed : ∀ line ∈ lines, '\n' ∉ line) (hne : lines ≠ []) :
    ending.cut (ending.text.toList.intercalate lines) = lines := by
  induction lines with
  | nil => exact absurd rfl hne
  | cons line more ih =>
    have hline := hfeed line List.mem_cons_self
    cases more with
    | nil => rw [List.intercalate_singleton, ending.cut_of_not_mem hline]
    | cons second more =>
      have hmore := ih (fun l hl => hfeed l (List.mem_cons_of_mem _ hl)) (by simp)
      rw [List.intercalate_cons_cons, ending.cut_append hline, hmore]

end LineEnding

namespace Stub

open Docstring

/-! ## 2. Reading a documentation -/

def unindent (indent line : List Char) : List Char :=
  (line.dropPrefix? indent).getD line

/-- The lines of a documentation, from the lines that its literal holds.  Those below the first
are indented, and the last of them has only the indentation of the closing quotes. -/
def docLines? (indent : List Char) : List (List Char) → Option (List (List Char))
  | [] => none
  | [line] => some [line]
  | line :: more =>
      if more.getLast? = some indent then some (line :: more.dropLast.map (unindent indent))
      else none

/-- Reads an indented literal: the lines of the documentation, and what follows the literal. -/
def readDoc? (config : EmitConfig) (text : List Char) : Option (List (List Char) × List Char) := do
  let indent := config.indent.text.toList
  let rest ← text.dropPrefix? (indent ++ quotes)
  let (inside, after) ← scan? rest
  let lines ← docLines? indent (config.lineEnding.cut (unescape inside))
  return (lines, after)

def belowHead (config : EmitConfig) (symbol : Symbol) : List Char :=
  (config.lineEnding.text.intercalate (functionLines config symbol).value.tail).toList

/-- What stands below a documentation: the break behind its last line, and the last line. -/
def belowDoc (config : EmitConfig) : List Char :=
  (config.lineEnding.text ++ (config.indent.text ++ "...")).toList

/-- Whether a text is one line that is broken behind a run of one or two double quotes. -/
def BreaksBehindQuote (doc : List Char) : Prop :=
  ∃ front run ending, doc = front ++ List.replicate run '"' ++ ending ∧ '\n' ∉ front ∧
    front.getLast? ≠ some '"' ∧ (run = 1 ∨ run = 2) ∧ (ending = ['\n'] ∨ ending = ['\r', '\n'])

/-! ## 3. The text of a literal -/

def indented (indent line : List Char) : List Char :=
  if line.isEmpty then [] else indent ++ line

/-- What a literal holds, line by line, from the lines of the escaped documentation. -/
def inside (indent : List Char) : List (List Char) → List (List Char)
  | [] => [[]]
  | [line] => [line]
  | line :: more => line :: more.map (indented indent) ++ [indent]

theorem intercalate_concat (ending last : List Char) {lines : List (List Char)}
    (hne : lines ≠ []) :
    ending.intercalate (lines ++ [last]) = ending.intercalate lines ++ (ending ++ last) := by
  induction lines with
  | nil => exact absurd rfl hne
  | cons line lines ih =>
    cases lines with
    | nil => simp
    | cons second lines =>
      rw [List.cons_append, List.intercalate_cons_of_ne_nil (by simp), ih (by simp),
        List.intercalate_cons_cons, List.append_assoc, List.append_assoc, List.append_assoc]

theorem intercalate_append_last (ending : List Char) (lines : List (List Char))
    (left right : List Char) :
    ending.intercalate (lines ++ [left ++ right]) =
      ending.intercalate (lines ++ [left]) ++ right := by
  induction lines with
  | nil => simp
  | cons line lines ih =>
    rw [List.cons_append, List.cons_append, List.intercalate_cons_of_ne_nil (by simp),
      List.intercalate_cons_of_ne_nil (by simp), ih, List.append_assoc, List.append_assoc]
    simp

theorem intercalate_cons_append (ending left right : List Char) (lines : List (List Char)) :
    ending.intercalate ((left ++ right) :: lines) =
      left ++ ending.intercalate (right :: lines) := by
  cases lines <;> simp

theorem toList_docLine (indent line : String) :
    (docLine indent line).toList = indented indent.toList line.toList := by
  unfold docLine indented
  by_cases h : line = ""
  · simp [h]
  · have hne : line.toList ≠ [] := by simpa using h
    rw [if_neg (by simpa using h), if_neg (by simpa using hne), String.toList_append]

/-- The lines below a head, joined. -/
theorem toList_intercalate_docLiteral (ending indent : String) (written : List (List Char)) :
    (ending.intercalate
        (docLiteral indent (written.map String.ofList) ++ [indent ++ "..."])).toList =
      indent.toList ++ quotes ++ (ending.toList.intercalate (inside indent.toList written) ++
        (quotes ++ (ending ++ (indent ++ "...")).toList)) := by
  have hquotes : "\"\"\"".toList = quotes := rfl
  have hempty : "\"\"\"\"\"\"".toList = quotes ++ quotes := rfl
  rw [String.toList_intercalate]
  cases written with
  | nil => simp [docLiteral, inside, hempty]
  | cons line more =>
    cases more with
    | nil => simp [docLiteral, inside, hquotes]
    | cons second more =>
      have hlines : (docLiteral indent ((line :: second :: more).map String.ofList) ++
            [indent ++ "..."]).map String.toList =
          (indent.toList ++ quotes ++ line) ::
            ((second :: more).map (indented indent.toList) ++ [indent.toList ++ quotes]) ++
            [(indent ++ "...").toList] := by
        simp [docLiteral, hquotes, toList_docLine]
      have hbelow : (ending ++ (indent ++ "...")).toList =
          ending.toList ++ (indent ++ "...").toList := String.toList_append
      rw [hlines, intercalate_concat _ _ (by simp), intercalate_cons_append, ← List.cons_append,
        intercalate_append_last, hbelow]
      simp [inside]

/-! ## 4. Reading the text of a literal -/

/-- A text without backslashes and double quotes. -/
def IsPlain (text : List Char) : Prop :=
  ∀ c ∈ text, c ≠ '\\' ∧ c ≠ '"'

theorem IsPlain.passes {text : List Char} (h : IsPlain text) (rest : List Char) :
    Passes text rest := by
  induction text with
  | nil => exact passes_nil rest
  | cons c text ih =>
    obtain ⟨hescape, hquote⟩ := h c List.mem_cons_self
    have htext := ih fun d hd => h d (List.mem_cons_of_mem _ hd)
    exact (passes_ordinary hescape hquote _).append htext

theorem IsPlain.unescape_append {text : List Char} (h : IsPlain text) (rest : List Char) :
    unescape (text ++ rest) = text ++ unescape rest := by
  induction text with
  | nil => rfl
  | cons c text ih =>
    obtain ⟨hescape, -⟩ := h c List.mem_cons_self
    rw [List.cons_append, unescape_cons hescape, ih fun d hd => h d (List.mem_cons_of_mem _ hd)]
    rfl

theorem isPlain_indent (indent : Indent) : IsPlain indent.text.toList := by
  cases indent <;> simp [IsPlain, Indent.text]

theorem isPlain_lineEnding (ending : LineEnding) : IsPlain ending.text.toList := by
  cases ending <;> simp [IsPlain, LineEnding.text]

theorem head?_lineEnding_append (ending : LineEnding) (rest : List Char) :
    (ending.text.toList ++ rest).head? ≠ some '"' := by
  cases ending <;> simp [LineEnding.text]

/-- Whether a written line stands for a line wherever no quote follows it. -/
structure Holds (written line : List Char) : Prop where
  empty : written = [] ↔ line = []
  passes : ∀ rest, rest.head? ≠ some '"' → Passes written rest
  unescape : ∀ rest, unescape (written ++ rest) = line ++ unescape rest

theorem holds_escapePart (last : Bool) (line : List Char) :
    Holds (escapePart last 0 line) line where
  empty := by
    rw [← List.getLast?_eq_none_iff, getLast?_escapePart, ← List.getLast?_eq_none_iff]
    rfl
  passes _ hrest := passes_escapePart (.inr hrest) 0 line
  unescape := unescape_escapePart last 0 line

theorem IsPlain.holds {text : List Char} (h : IsPlain text) : Holds text text :=
  ⟨Iff.rfl, fun rest _ => h.passes rest, h.unescape_append⟩

theorem Holds.indented {written line indent : List Char} (h : Holds written line)
    (hindent : IsPlain indent) : Holds (indented indent written) (indented indent line) := by
  unfold Stub.indented
  by_cases hempty : written = []
  · rw [if_pos (by simpa using hempty), if_pos (by simpa using h.empty.mp hempty)]
    exact ⟨Iff.rfl, fun rest _ => passes_nil rest, fun _ => rfl⟩
  · have hline : line ≠ [] := fun hline => hempty (h.empty.mpr hline)
    rw [if_neg (by simpa using hempty), if_neg (by simpa using hline)]
    refine ⟨by simp [hempty, hline], fun rest hrest => ?_, fun rest => ?_⟩
    · exact (hindent.passes _).append (h.passes rest hrest)
    · rw [List.append_assoc, hindent.unescape_append, h.unescape, List.append_assoc]

theorem unindent_indented (indent line : List Char) :
    unindent indent (indented indent line) = line := by
  unfold unindent indented
  by_cases hline : line = []
  · rw [if_pos (by simpa using hline), hline]
    cases indent <;> rfl
  · rw [if_neg (by simpa using hline), List.dropPrefix?_append_of_beq _ (BEq.refl _)]
    rfl

theorem forall₂_inside {indent : List Char} (hindent : IsPlain indent)
    {written lines : List (List Char)} (h : List.Forall₂ Holds written lines) :
    List.Forall₂ Holds (inside indent written) (inside indent lines) := by
  cases h with
  | nil => exact .cons (IsPlain.holds fun _ hc => absurd hc List.not_mem_nil) .nil
  | cons hline hmore =>
    cases hmore with
    | nil => exact .cons hline .nil
    | cons hsecond hmore =>
      refine .cons hline (List.rel_append ?_ (.cons hindent.holds .nil))
      rw [List.forall₂_map_left_iff, List.forall₂_map_right_iff]
      exact (List.Forall₂.cons hsecond hmore).imp fun _ _ h => h.indented hindent

/-- Lines that hold others do so when they are joined by a line ending. -/
theorem unescape_intercalate (ending : LineEnding) {written lines : List (List Char)}
    (h : List.Forall₂ Holds written lines) :
    unescape (ending.text.toList.intercalate written) = ending.text.toList.intercalate lines := by
  induction h with
  | nil => rfl
  | @cons piece line written lines hline hmore ih =>
    cases hmore with
    | nil =>
      have hread := hline.unescape []
      rw [List.append_nil] at hread
      rw [List.intercalate_singleton, List.intercalate_singleton, hread]
      exact List.append_nil line
    | cons _ _ =>
      rw [List.intercalate_cons_cons, List.append_assoc, hline.unescape,
        (isPlain_lineEnding ending).unescape_append, ih, List.intercalate_cons_cons,
        List.append_assoc]

theorem passes_intercalate (ending : LineEnding) {pieces : List (List Char)} {final : List Char}
    (hpieces : ∀ piece ∈ pieces, ∀ rest, rest.head? ≠ some '"' → Passes piece rest)
    (hfinal : IsPlain final) (rest : List Char) :
    Passes (ending.text.toList.intercalate (pieces ++ [final])) rest := by
  induction pieces with
  | nil =>
    rw [List.nil_append, List.intercalate_singleton]
    exact hfinal.passes rest
  | cons piece pieces ih =>
    have hmore := ih fun p hp => hpieces p (List.mem_cons_of_mem _ hp)
    rw [List.cons_append, List.intercalate_cons_of_ne_nil (by simp), List.append_assoc]
    apply Passes.append
    · apply hpieces piece List.mem_cons_self
      rw [List.append_assoc]
      exact head?_lineEnding_append ending _
    · exact ((isPlain_lineEnding ending).passes _).append hmore

theorem exists_holds {written lines : List (List Char)} (h : List.Forall₂ Holds written lines) :
    ∀ piece ∈ written, ∃ line, Holds piece line := by
  have hboth := h.imp (S := fun piece line => (∃ l, Holds piece l) ∧ Holds piece line)
    fun piece line hline => ⟨⟨line, hline⟩, hline⟩
  exact ((List.forall₂_and_left written lines).mp hboth).1

/-- Behind several lines comes the indentation of the closing quotes, so that these end the
literal. -/
theorem passes_inside (config : EmitConfig) {written lines : List (List Char)}
    (h : List.Forall₂ Holds written lines) (hlength : 2 ≤ lines.length) (rest : List Char) :
    Passes (config.lineEnding.text.toList.intercalate
      (inside config.indent.text.toList written)) rest := by
  have hindent := isPlain_indent config.indent
  have hpieces := exists_holds (forall₂_inside hindent h)
  cases h with
  | nil => exact absurd hlength (by simp)
  | @cons w line written lines hline hmore =>
    cases hmore with
    | nil => exact absurd hlength (by simp)
    | @cons second _ written _ hsecond hmore =>
      show Passes (config.lineEnding.text.toList.intercalate
        ((w :: (second :: written).map (indented config.indent.text.toList)) ++
          [config.indent.text.toList])) rest
      refine passes_intercalate config.lineEnding ?_ hindent rest
      intro piece hpiece
      obtain ⟨shown, hholds⟩ := hpieces piece (List.mem_append_left _ hpiece)
      exact hholds.passes

theorem docLines?_inside (indent : List Char) {lines : List (List Char)} (hne : lines ≠ []) :
    docLines? indent (inside indent lines) = some lines := by
  cases lines with
  | nil => exact absurd rfl hne
  | cons line more =>
    cases more with
    | nil => rfl
    | cons second more =>
      show docLines? indent (line :: ((second :: more).map (indented indent) ++ [indent])) = _
      rw [List.map_cons, List.cons_append, docLines?, ← List.cons_append, ← List.map_cons]
      · rw [List.getLast?_concat, if_pos rfl, List.dropLast_concat, List.map_map]
        have hmap : unindent indent ∘ indented indent = id := funext (unindent_indented indent)
        rw [hmap, List.map_id]
      · simp

theorem not_mem_inside {indent : List Char} (hindent : '\n' ∉ indent) {lines : List (List Char)}
    (hlines : ∀ line ∈ lines, '\n' ∉ line) : ∀ line ∈ inside indent lines, '\n' ∉ line := by
  have hindented : ∀ line ∈ lines, '\n' ∉ indented indent line := by
    intro line hline
    unfold indented
    split
    · exact List.not_mem_nil
    · simp [hindent, hlines line hline]
  cases lines with
  | nil => simp [inside]
  | cons line more =>
    cases more with
    | nil => exact hlines
    | cons second more =>
      intro shown hshown
      simp only [inside, List.cons_append, List.mem_cons, List.mem_append, List.mem_map,
        List.not_mem_nil, or_false] at hshown
      -- the first line, one of those below it, or the indentation before the closing quotes
      rcases hshown with rfl | ⟨l, hl, rfl⟩ | rfl
      · exact hlines _ List.mem_cons_self
      · exact hindented l (List.mem_cons_of_mem _ (by simpa using hl))
      · exact hindent

/-- What is written for some lines is read back if the literal ends behind it. -/
theorem readDoc?_of_scan? (config : EmitConfig) {written lines : List (List Char)}
    (h : List.Forall₂ Holds written lines) (hne : lines ≠ []) (hlines : ∀ line ∈ lines, '\n' ∉ line)
    {body : List Char}
    (hbody : config.lineEnding.text.toList.intercalate (inside config.indent.text.toList written) =
      body)
    (hscan : scan? (body ++ (quotes ++ belowDoc config)) = some (body, belowDoc config)) :
    readDoc? config
        (config.indent.text.toList ++ quotes ++ (body ++ (quotes ++ belowDoc config))) =
      some (lines, belowDoc config) := by
  have hunescape := unescape_intercalate config.lineEnding
    (forall₂_inside (isPlain_indent config.indent) h)
  have hindent : '\n' ∉ config.indent.text.toList := by cases config.indent <;> decide
  have hinside : inside config.indent.text.toList lines ≠ [] := by
    intro hnil
    have hread := docLines?_inside config.indent.text.toList hne
    rw [hnil] at hread
    exact absurd hread (by simp [docLines?])
  have hcut := config.lineEnding.cut_intercalate (not_mem_inside hindent hlines) hinside
  unfold readDoc?
  rw [hbody] at hunescape
  simp only [List.dropPrefix?_append_of_beq _ (BEq.refl _), bind, Option.bind, hscan, hunescape,
    hcut, docLines?_inside _ hne]
  rfl

/-! ## 5. The lines of the escaped documentation -/

theorem endsLine_escapePart (last : Bool) {line ending : List Char}
    (h : Text.EndsLine line ending) : Text.EndsLine (escapePart last 0 line) ending := by
  unfold Text.EndsLine at *
  rw [getLast?_escapePart]
  exact h

theorem escape_append {line ending : List Char} (h : Text.EndsLine line ending)
    (rest : List Char) :
    escape (line ++ (ending ++ rest)) = escapePart false 0 line ++ (ending ++ escape rest) := by
  unfold escape
  rw [escapeFrom_eq_escapePart, escapeFrom_eq_escapePart]
  have hfeed := escapePart_cons (c := '\n') (by decide) (by decide) true
  rcases h with rfl | ⟨rfl, -⟩
  · show escapePart true 0 (line ++ '\r' :: '\n' :: rest) = _
    rw [escapePart_append (by decide), escapePart_cons (by decide) (by decide), hfeed]
    rfl
  · show escapePart true 0 (line ++ '\n' :: rest) = _
    rw [escapePart_append (by decide), hfeed]
    rfl

theorem not_mem_escapePart {line : List Char} (hfeed : '\n' ∉ line) (last : Bool) :
    '\n' ∉ escapePart last 0 line := by
  rwa [mem_escapePart_iff (by decide) (by decide)]

theorem lines_escape_of_not_mem {line : List Char} (hfeed : '\n' ∉ line) (hne : line ≠ []) :
    Text.lines (escape line) = [escapePart true 0 line] := by
  have hwritten : escapePart true 0 line ≠ [] := fun h =>
    hne ((holds_escapePart true line).empty.mp h)
  unfold escape
  rw [escapeFrom_eq_escapePart, Text.lines_of_not_mem (not_mem_escapePart hfeed true) hwritten]

/-- The lines of the escaped text hold those of the text. -/
theorem forall₂_lines_escape {doc : List Char} {lines : List (List Char)}
    (h : Text.HasLines doc lines) : List.Forall₂ Holds (Text.lines (escape doc)) lines := by
  induction h with
  | nil => exact .nil
  | @last line hfeed hne =>
    rw [lines_escape_of_not_mem hfeed hne]
    exact .cons (holds_escapePart true line) .nil
  | cons hfeed hending _ ih =>
    rw [escape_append hending, Text.lines_append (not_mem_escapePart hfeed false)
      (endsLine_escapePart false hending)]
    exact .cons (holds_escapePart false _) ih

theorem lines_of_endsLine {line ending : List Char} (hfeed : '\n' ∉ line)
    (hending : Text.EndsLine line ending) : Text.lines (line ++ ending) = [line] := by
  have hlines := Text.lines_append hfeed hending []
  rwa [List.append_nil] at hlines

theorem lines_escape_of_endsLine {line ending : List Char} (hfeed : '\n' ∉ line)
    (hending : Text.EndsLine line ending) :
    Text.lines (escape (line ++ ending)) = [escapePart false 0 line] := by
  have hescape := escape_append hending []
  rw [List.append_nil, show escape [] = [] from rfl, List.append_nil] at hescape
  rw [hescape]
  exact lines_of_endsLine (not_mem_escapePart hfeed false) (endsLine_escapePart false hending)

/-! ## 6. The text below a head -/

def docBody (config : EmitConfig) (doc : List Char) : List Char :=
  config.lineEnding.text.toList.intercalate
    (inside config.indent.text.toList (Text.lines (escape doc)))

theorem belowHead_eq (config : EmitConfig) (symbol : Symbol) (hdocs : config.includeDocs = true)
    (hdoc : symbol.doc ≠ "") :
    belowHead config symbol =
      config.indent.text.toList ++ quotes ++
        (docBody config symbol.doc.toList ++ (quotes ++ belowDoc config)) := by
  have hlines : (functionLines config symbol).value.tail =
      functionBody config.indent.text symbol.doc := by
    simp [functionLines, Symbol.hasDoc, hdocs, hdoc]
  unfold belowHead belowDoc docBody
  rw [hlines]
  exact toList_intercalate_docLiteral ..

theorem docBody_of_line {config : EmitConfig} {doc written : List Char}
    (h : Text.lines (escape doc) = [written]) : docBody config doc = written := by
  unfold docBody
  rw [h]
  exact List.intercalate_singleton

/-- The closing quotes of a documentation end its literal, unless one or two quotes stand before
them. -/
theorem scan?_docBody (config : EmitConfig) {doc : List Char} (hdoc : doc ≠ [])
    (h : ¬ BreaksBehindQuote doc) (after : List Char) :
    scan? (docBody config doc ++ (quotes ++ after)) = some (docBody config doc, after) := by
  have hlines := Text.hasLines_lines doc
  by_cases hlength : 2 ≤ (Text.lines doc).length
  · exact scan?_of_passes (passes_inside config (forall₂_lines_escape hlines) hlength _)
  generalize Text.lines doc = lines at hlines hlength
  cases hlines with
  | nil => exact absurd rfl hdoc
  | last hfeed hne =>
    rw [docBody_of_line (lines_escape_of_not_mem hfeed hne)]
    exact scan?_of_passes (passes_escapePart (.inl rfl) 0 doc)
  | @cons line ending rest more hfeed hending hrest =>
    -- there is one line, so nothing follows its break
    have hmore : more = [] := by
      cases more with
      | nil => rfl
      | cons second more => simp at hlength
    have hrestNil : rest = [] := (hmore ▸ hrest).eq_nil
    rw [hrestNil, List.append_nil] at h ⊢
    rw [docBody_of_line (lines_escape_of_endsLine hfeed hending)]
    obtain ⟨front, run, rfl, hfront⟩ := exists_run line
    rw [scan?_escapePart_quotes_iff hfront]
    intro hrun
    refine h ⟨front, run, ending, rfl, fun hmem => hfeed (by simp [hmem]), hfront, hrun, ?_⟩
    exact hending.symm.imp_left And.left

theorem scan?_docBody_ne (config : EmitConfig) {doc : List Char} (h : BreaksBehindQuote doc)
    (after : List Char) :
    scan? (docBody config doc ++ (quotes ++ after)) ≠ some (docBody config doc, after) := by
  obtain ⟨front, run, ending, rfl, hfeed, hfront, hrun, hending⟩ := h
  have hline : '\n' ∉ front ++ List.replicate run '"' := by simp [hfeed]
  have hlast : (front ++ List.replicate run '"').getLast? ≠ some '\r' := by
    rcases hrun with rfl | rfl <;> simp [List.replicate]
  have hends : Text.EndsLine (front ++ List.replicate run '"') ending :=
    hending.symm.imp_right fun h => ⟨h, hlast⟩
  rw [docBody_of_line (lines_escape_of_endsLine hline hends)]
  exact fun hscan => (scan?_escapePart_quotes_iff hfront run after).mp hscan hrun

/-- The documentation below the head of a function is one literal that holds its lines, unless it
is one line that is broken behind one or two double quotes. -/
theorem readDoc?_eq_iff (config : EmitConfig) (symbol : Symbol) (hdocs : config.includeDocs = true)
    (hdoc : symbol.doc ≠ "") :
    readDoc? config (belowHead config symbol) =
        some (Text.lines symbol.doc.toList, belowDoc config) ↔
      ¬ BreaksBehindQuote symbol.doc.toList := by
  have hne : symbol.doc.toList ≠ [] := by simpa using hdoc
  have hholds := forall₂_lines_escape (Text.hasLines_lines symbol.doc.toList)
  rw [belowHead_eq config symbol hdocs hdoc]
  constructor
  · intro h hbreaks
    -- a literal with the same rest behind it would hold the same
    have hscan : ∃ inside, scan? (docBody config symbol.doc.toList ++
        (quotes ++ belowDoc config)) = some (inside, belowDoc config) := by
      unfold readDoc? at h
      simp only [List.dropPrefix?_append_of_beq _ (BEq.refl _), bind, Option.bind_some,
        Option.bind_eq_some_iff, pure, Option.some.injEq, Prod.exists] at h
      obtain ⟨inside, after, hscan, lines, -, hfound⟩ := h
      rw [Prod.mk.injEq] at hfound
      exact ⟨inside, hfound.2 ▸ hscan⟩
    obtain ⟨inside, hscan⟩ := hscan
    have hsame := List.append_cancel_right (eq_append_of_scan? hscan)
    rw [← hsame] at hscan
    exact scan?_docBody_ne config hbreaks _ hscan
  · intro h
    have hnil : Text.lines symbol.doc.toList ≠ [] := fun hnil =>
      hne (hnil ▸ Text.hasLines_lines symbol.doc.toList).eq_nil
    exact readDoc?_of_scan? config hholds hnil (Text.hasLines_lines _).not_mem rfl
      (scan?_docBody config hne h _)

/-- A function whose documentation has quotes, backslashes and breaks of both kinds. -/
def quotedSample : Symbol :=
  ⟨"f", .function, "Says \"\"\" or \"\".\r\r\n\n    \\\" stays \\\r\n\t\"\"", "", by decide⟩

theorem readDoc?_quotedSample :
    (⟨true, .tabs, .crlf⟩ : EmitConfig).includeDocs = true ∧ quotedSample.doc ≠ "" ∧
      readDoc? ⟨true, .tabs, .crlf⟩ (belowHead ⟨true, .tabs, .crlf⟩ quotedSample) =
        some (Text.lines quotedSample.doc.toList, belowDoc ⟨true, .tabs, .crlf⟩) := by
  refine ⟨rfl, by decide, (readDoc?_eq_iff _ _ rfl (by decide)).mpr ?_⟩
  -- the text does not end in a break
  rintro ⟨front, run, ending, hdoc, -, -, -, hending⟩
  have hlast := congrArg List.getLast? hdoc
  rcases hending with rfl | rfl <;> simp [quotedSample] at hlast

def brokenSample : Symbol :=
  ⟨"f", .function, "a\"\n", "()", by decide⟩

/-- The literal ends before the quote, which is left over on its line. -/
theorem readDoc?_brokenSample :
    readDoc? {} (belowHead {} brokenSample) = some ([['a']], '"' :: belowDoc {}) ∧
      Text.lines brokenSample.doc.toList = [['a', '"']] := by
  decide +kernel

end Stub

end ModuleSurface
