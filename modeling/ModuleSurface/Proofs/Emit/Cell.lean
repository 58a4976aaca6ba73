import ModuleSurface.Emit.Markdown
import ModuleSurface.Proofs.Text.Split
import ModuleSurface.Proofs.Text.Trim

/-!
# Cell — a text in a cell of a table stays there, and can be told from the cell

A bar ends a cell unless a backslash stands directly before it.  Escaping puts one before every bar
of a cell, and the break that takes the place of a line ending has neither bars nor backslashes, so
a row has only the bars that it is made with (`boundaries_variableRow`).  Nor can a break arise
where a line meets the next one: cut at the breaks, a cell gives back its lines
(`map_unescapeBars_cutBreaks_cell`).  The cells of the annotation and the documentation are what
stands between the bars of a row (`cells_variableRow`), so both texts are read back from the row.
-/

namespace ModuleSurface.Markdown

open Text (trim join HasLines AllBlank)

/-! ## 1. Bars -/

/-- The number of bars in a text that no backslash stands directly before; `escaped` when one
stands before the text. -/
def boundariesAfter (escaped : Bool) : List Char → Nat
  | [] => 0
  | c :: rest => (if c = '|' ∧ escaped = false then 1 else 0) + boundariesAfter (c == '\\') rest

def boundaries (text : List Char) : Nat :=
  boundariesAfter false text

theorem boundariesAfter_append_cons (escaped : Bool) (text : List Char) {c : Char} (hc : c ≠ '|')
    (rest : List Char) :
    boundariesAfter escaped (text ++ c :: rest) =
      boundariesAfter escaped text + boundariesAfter (c == '\\') rest := by
  induction text generalizing escaped with
  | nil => simp [boundariesAfter, hc]
  | cons d text ih => rw [List.cons_append, boundariesAfter, boundariesAfter, ih, Nat.add_assoc]

theorem escapeBars_cons_bar (rest : List Char) :
    escapeBars ('|' :: rest) = '\\' :: '|' :: escapeBars rest := rfl

theorem escapeBars_cons {c : Char} (hc : c ≠ '|') (rest : List Char) :
    escapeBars (c :: rest) = c :: escapeBars rest := by
  rw [escapeBars, List.flatMap_cons, if_neg hc]
  rfl

theorem escapeBars_append (left right : List Char) :
    escapeBars (left ++ right) = escapeBars left ++ escapeBars right :=
  List.flatMap_append

theorem boundariesAfter_escapeBars (escaped : Bool) (text : List Char) :
    boundariesAfter escaped (escapeBars text) = 0 := by
  induction text generalizing escaped with
  | nil => rfl
  | cons c text ih =>
    by_cases hc : c = '|'
    · rw [hc, escapeBars_cons_bar, boundariesAfter, boundariesAfter, ih]
      simp
    · rw [escapeBars_cons hc, boundariesAfter, ih]
      simp [hc]

/-! ## 2. Lines of an escaped text -/

theorem mem_of_mem_escapeBars {c : Char} (hc : c ≠ '\\') {text : List Char}
    (h : c ∈ escapeBars text) : c ∈ text := by
  obtain ⟨d, hd, hmem⟩ := List.mem_flatMap.mp h
  split at hmem
  · rename_i hbar
    have hcBar : c = '|' := by simpa [hc] using hmem
    rwa [hcBar, ← hbar]
  · rwa [List.mem_singleton.mp hmem]

theorem getLast?_escapeBars (text : List Char) : (escapeBars text).getLast? = text.getLast? := by
  induction text using List.reverseRecOn with
  | nil => rfl
  | append_singleton front c _ =>
    rw [escapeBars_append, List.getLast?_concat]
    by_cases hc : c = '|'
    · rw [hc, escapeBars_cons_bar, List.getLast?_append]
      rfl
    · rw [escapeBars_cons hc, List.getLast?_append]
      rfl

theorem hasLines_escapeBars {text : List Char} {found : List (List Char)}
    (h : HasLines text found) : HasLines (escapeBars text) (found.map escapeBars) := by
  have hfree : ∀ {line : List Char}, '\n' ∉ line → '\n' ∉ escapeBars line :=
    fun hline hfeed => hline (mem_of_mem_escapeBars (by decide) hfeed)
  induction h with
  | nil => exact .nil
  | last hfeed hne =>
    refine .last (hfree hfeed) fun hnil => hne ?_
    rw [← List.getLast?_eq_none_iff, ← getLast?_escapeBars, hnil]
    rfl
  | @cons line ending rest more hfeed hending _ ih =>
    have hkept : escapeBars ending = ending := by
      rcases hending with rfl | ⟨rfl, -⟩ <;> rfl
    rw [escapeBars_append, escapeBars_append, hkept]
    refine .cons (hfree hfeed) ?_ ih
    -- the last character of a line is kept, so the ending is told from it as before
    rwa [Text.EndsLine, getLast?_escapeBars]

theorem lines_escapeBars (text : List Char) :
    Text.lines (escapeBars text) = (Text.lines text).map escapeBars :=
  (hasLines_escapeBars (Text.hasLines_lines text)).lines_eq

/-! ## 3. Rows -/

def lineBreak : List Char :=
  ['<', 'b', 'r', '>']

theorem cell_eq (text : List Char) :
    cell text = join lineBreak ((Text.lines (trim text)).map escapeBars) := by
  rw [cell, lines_escapeBars]
  rfl

theorem newline_not_mem_cell (text : List Char) : '\n' ∉ cell text := by
  intro hfeed
  rcases Text.mem_join hfeed with hbreak | ⟨line, hline, hmem⟩
  · exact absurd hbreak (by decide)
  · exact (Text.hasLines_lines _).not_mem line hline hmem

theorem boundariesAfter_join {pieces : List (List Char)}
    (h : ∀ piece ∈ pieces, ∀ escaped, boundariesAfter escaped piece = 0) (escaped : Bool) :
    boundariesAfter escaped (join lineBreak pieces) = 0 := by
  induction pieces generalizing escaped with
  | nil => rfl
  | cons piece more ih =>
    obtain ⟨hpiece, hmore⟩ := List.forall_mem_cons.mp h
    cases more with
    | nil => exact hpiece escaped
    | cons second more =>
      have hbreak : boundariesAfter false (['b', 'r', '>'] ++ join lineBreak (second :: more)) =
          boundariesAfter false (join lineBreak (second :: more)) := by
        simp [boundariesAfter]
      rw [Text.join_cons_cons, List.append_assoc]
      -- what opens a break is no bar, so the piece before it is counted apart
      show boundariesAfter escaped (piece ++ '<' :: (['b', 'r', '>'] ++ _)) = 0
      rw [boundariesAfter_append_cons escaped piece (by decide), hpiece]
      exact (Nat.zero_add _).trans (hbreak.trans (ih hmore false))

theorem boundariesAfter_cell (escaped : Bool) (text : List Char) :
    boundariesAfter escaped (cell text) = 0 := by
  rw [cell_eq]
  refine boundariesAfter_join (fun piece hpiece => ?_) escaped
  obtain ⟨line, -, rfl⟩ := List.mem_map.mp hpiece
  exact fun escaped => boundariesAfter_escapeBars escaped line

theorem toList_code (text : String) : (code text).toList = '\x60' :: (text.toList ++ ['\x60']) := by
  rw [code, String.toList_append, String.toList_append]
  rfl

theorem boundariesAfter_typeCell (symbol : Symbol) :
    boundariesAfter false (typeCell symbol).toList = 0 := by
  unfold typeCell
  split
  · rw [toList_code, String.toList_ofList, boundariesAfter,
      boundariesAfter_append_cons _ _ (by decide), boundariesAfter_cell]
    rfl
  · rfl

theorem newline_not_mem_typeCell (symbol : Symbol) : '\n' ∉ (typeCell symbol).toList := by
  unfold typeCell
  split
  · rw [toList_code, String.toList_ofList]
    simp [newline_not_mem_cell]
  · decide

theorem toList_variableRow (config : EmitConfig) (symbol : Symbol) :
    (variableRow config symbol).toList =
      '|' :: ' ' :: '\x60' :: (symbol.name.toList ++ '\x60' :: ' ' :: '|' :: ' ' ::
        ((typeCell symbol).toList ++ ' ' :: '|' ::
          if config.includeDocs then ' ' :: (cell symbol.doc.toList ++ [' ', '|']) else [])) := by
  unfold variableRow
  split <;> simp [toList_code]

theorem boundaries_variableRow (config : EmitConfig) (symbol : Symbol) :
    boundaries (variableRow config symbol).toList =
      (if config.includeDocs then 4 else 3) + boundaries symbol.name.toList := by
  have hquote : '\x60' ≠ '|' := by decide
  have hblank : ' ' ≠ '|' := by decide
  have htype : boundariesAfter (' ' == '\\') (typeCell symbol).toList = 0 :=
    boundariesAfter_typeCell symbol
  rw [toList_variableRow, boundaries, boundaries]
  simp only [boundariesAfter, boundariesAfter_append_cons _ _ hquote,
    boundariesAfter_append_cons _ _ hblank, htype]
  cases config.includeDocs with
  | true =>
    simp [boundariesAfter, boundariesAfter_append_cons _ _ hblank, boundariesAfter_cell]
    omega
  | false =>
    simp [boundariesAfter]
    omega

theorem count_newline_variableRow (config : EmitConfig) (symbol : Symbol) :
    (variableRow config symbol).toList.count '\n' = symbol.name.toList.count '\n' := by
  have htype := List.count_eq_zero.mpr (newline_not_mem_typeCell symbol)
  have hdoc := List.count_eq_zero.mpr (newline_not_mem_cell symbol.doc.toList)
  rw [toList_variableRow]
  split <;> simp [htype, hdoc]

/-! ## 4. Back from a cell -/

def unescapeBars : List Char → List Char
  | [] => []
  | '\\' :: '|' :: rest => '|' :: unescapeBars rest
  | c :: rest => c :: unescapeBars rest

def cutBreaks : List Char → List (List Char)
  | [] => [[]]
  | '<' :: 'b' :: 'r' :: '>' :: rest => [] :: cutBreaks rest
  | c :: rest =>
      match cutBreaks rest with
      | [] => [[c]]
      | piece :: pieces => (c :: piece) :: pieces

theorem head?_escapeBars (text : List Char) : (escapeBars text).head? ≠ some '|' := by
  cases text with
  | nil => simp [escapeBars]
  | cons c rest =>
    by_cases hc : c = '|'
    · rw [hc, escapeBars_cons_bar]
      simp
    · rw [escapeBars_cons hc]
      simpa using hc

theorem unescapeBars_cons {c : Char} {rest : List Char} (h : rest.head? ≠ some '|') :
    unescapeBars (c :: rest) = c :: unescapeBars rest := by
  apply unescapeBars.eq_3 c rest
  intro tail _ hrest
  apply h
  rw [hrest]
  rfl

theorem unescapeBars_escapeBars (text : List Char) : unescapeBars (escapeBars text) = text := by
  induction text with
  | nil => rfl
  | cons c rest ih =>
    by_cases hc : c = '|'
    · rw [hc, escapeBars_cons_bar, unescapeBars, ih]
    · rw [escapeBars_cons hc, unescapeBars_cons (head?_escapeBars rest), ih]

theorem cutBreaks_cons {c : Char} {rest : List Char} (h : ¬lineBreak <+: c :: rest) :
    cutBreaks (c :: rest) = match cutBreaks rest with
      | [] => [[c]]
      | piece :: pieces => (c :: piece) :: pieces := by
  apply cutBreaks.eq_3 c rest
  rintro tail rfl rfl
  exact h ⟨tail, rfl⟩

theorem cutBreaks_of_not_infix {line : List Char} (h : ¬lineBreak <:+: line) :
    cutBreaks line = [line] := by
  induction line with
  | nil => rfl
  | cons c rest ih =>
    rw [List.infix_cons_iff, not_or] at h
    rw [cutBreaks_cons h.1, ih h.2]

theorem prefix_of_prefix_append_lineBreak {line rest : List Char} (hne : line ≠ [])
    (h : lineBreak <+: line ++ (lineBreak ++ rest)) : lineBreak <+: line := by
  match line with
  | [] => exact absurd rfl hne
  -- a shorter line would be a beginning of a break, with another break where that one goes on
  | [_] | [_, _] | [_, _, _] => simp [lineBreak] at h
  | _ :: _ :: _ :: _ :: _ => simpa [lineBreak] using h

theorem cutBreaks_append {line : List Char} (h : ¬lineBreak <:+: line) (rest : List Char) :
    cutBreaks (line ++ (lineBreak ++ rest)) = line :: cutBreaks rest := by
  induction line with
  | nil => rfl
  | cons c line ih =>
    rw [List.infix_cons_iff, not_or] at h
    have hprefix : ¬lineBreak <+: c :: (line ++ (lineBreak ++ rest)) :=
      fun hbreak => h.1 (prefix_of_prefix_append_lineBreak (List.cons_ne_nil c line) hbreak)
    rw [List.cons_append, cutBreaks_cons hprefix, ih h.2]

theorem cutBreaks_join {lines : List (List Char)} (hne : lines ≠ [])
    (h : ∀ line ∈ lines, ¬lineBreak <:+: line) : cutBreaks (join lineBreak lines) = lines := by
  induction lines with
  | nil => exact absurd rfl hne
  | cons line more ih =>
    obtain ⟨hline, hmore⟩ := List.forall_mem_cons.mp h
    cases more with
    | nil => exact cutBreaks_of_not_infix hline
    | cons second more =>
      rw [Text.join_cons_cons, List.append_assoc, cutBreaks_append hline,
        ih (List.cons_ne_nil second more) hmore]

theorem prefix_of_prefix_escapeBars {word text : List Char} (hslash : '\\' ∉ word)
    (h : word <+: escapeBars text) : word <+: text := by
  induction word generalizing text with
  | nil => exact List.nil_prefix
  | cons w word ih =>
    rw [List.mem_cons, not_or] at hslash
    cases text with
    | nil => exact h
    | cons c text =>
      by_cases hc : c = '|'
      · rw [hc, escapeBars_cons_bar, List.cons_prefix_cons] at h
        exact absurd h.1.symm hslash.1
      · rw [escapeBars_cons hc, List.cons_prefix_cons] at h
        exact List.cons_prefix_cons.mpr ⟨h.1, ih hslash.2 h.2⟩

theorem lineBreak_infix_of_escapeBars {text : List Char} (h : lineBreak <:+: escapeBars text) :
    lineBreak <:+: text := by
  induction text with
  | nil => exact h
  | cons c text ih =>
    by_cases hc : c = '|'
    · rw [hc, escapeBars_cons_bar, List.infix_cons_iff, List.infix_cons_iff] at h
      rcases h with hslash | hbar | hrest
      · simp [lineBreak] at hslash
      · simp [lineBreak] at hbar
      · exact List.infix_cons (ih hrest)
    · rw [escapeBars_cons hc, List.infix_cons_iff] at h
      rcases h with hprefix | hrest
      · rw [← escapeBars_cons hc] at hprefix
        exact (prefix_of_prefix_escapeBars (by decide) hprefix).isInfix
      · exact List.infix_cons (ih hrest)

theorem map_unescapeBars_cutBreaks_cell {text : List Char} (hbreak : ¬lineBreak <:+: text)
    (hblank : ¬AllBlank text) :
    (cutBreaks (cell text)).map unescapeBars = Text.lines (trim text) := by
  have hlines := Text.hasLines_lines (trim text)
  have hne : (Text.lines (trim text)).map escapeBars ≠ [] := by
    intro hnil
    rw [List.map_eq_nil_iff] at hnil
    rw [hnil] at hlines
    exact hblank ((Text.trim_eq_nil_iff text).mp hlines.eq_nil)
  have hfree : ∀ line ∈ (Text.lines (trim text)).map escapeBars, ¬lineBreak <:+: line := by
    intro escaped hescaped hinfix
    obtain ⟨line, hline, rfl⟩ := List.mem_map.mp hescaped
    have hkept := (hlines.isInfix_of_mem line hline).trans (Text.isInfix_trim text)
    exact hbreak ((lineBreak_infix_of_escapeBars hinfix).trans hkept)
  rw [cell_eq, cutBreaks_join hne hfree, List.map_map]
  exact (List.map_congr_left fun line _ => unescapeBars_escapeBars line).trans (List.map_id _)

/-! ## 5. The cells of a row -/

/-- The pieces of a text between the bars that end a cell; `escaped` when a backslash stands before
the text. -/
def cellsAfter (escaped : Bool) : List Char → List (List Char)
  | [] => [[]]
  | c :: rest =>
      if c = '|' ∧ escaped = false then [] :: cellsAfter false rest
      else (cellsAfter (c == '\\') rest).modifyHead (c :: ·)

/-- The cells of a row, with what stands before the first bar and behind the last one. -/
def cells (row : List Char) : List (List Char) :=
  cellsAfter false row

def padded (text : List Char) : List Char :=
  ' ' :: (text ++ [' '])

theorem length_cellsAfter (escaped : Bool) (text : List Char) :
    (cellsAfter escaped text).length = boundariesAfter escaped text + 1 := by
  induction text generalizing escaped with
  | nil => rfl
  | cons c rest ih =>
    rw [cellsAfter, boundariesAfter]
    by_cases hc : c = '|' ∧ escaped = false
    · rw [if_pos hc, if_pos hc, List.length_cons, ih, hc.1, Nat.add_comm 1]
      rfl
    · rw [if_neg hc, if_neg hc, List.length_modifyHead, ih, Nat.zero_add]

theorem cellsAfter_of_boundariesAfter {escaped : Bool} {text : List Char}
    (h : boundariesAfter escaped text = 0) : cellsAfter escaped text = [text] := by
  induction text generalizing escaped with
  | nil => rfl
  | cons c rest ih =>
    rw [boundariesAfter, Nat.add_eq_zero_iff] at h
    have hc : ¬(c = '|' ∧ escaped = false) := fun hc => by simp [hc] at h
    rw [cellsAfter, if_neg hc, ih h.2]
    rfl

theorem cellsAfter_append_bar (escaped : Bool) (text rest : List Char) :
    cellsAfter escaped (text ++ ' ' :: '|' :: rest) =
      cellsAfter escaped (text ++ [' ']) ++ cellsAfter false rest := by
  induction text generalizing escaped with
  | nil => simp [cellsAfter]
  | cons c text ih =>
    rw [List.cons_append, List.cons_append, cellsAfter, cellsAfter]
    by_cases hc : c = '|' ∧ escaped = false
    · rw [if_pos hc, if_pos hc, ih, List.cons_append]
    · obtain ⟨piece, pieces, hpieces⟩ :=
        List.exists_cons_of_length_eq_add_one (length_cellsAfter (c == '\\') (text ++ [' ']))
      rw [if_neg hc, if_neg hc, ih, hpieces]
      rfl

theorem cellsAfter_padded {text : List Char} (h : boundariesAfter false text = 0) :
    cellsAfter false (padded text) = [padded text] := by
  refine cellsAfter_of_boundariesAfter ?_
  rw [padded, boundariesAfter, boundariesAfter_append_cons _ _ (by decide)]
  simpa [boundariesAfter] using h

/-- Behind the name a row has the cell of the annotation and, with documentation, the cell of the
documentation, each in one piece. -/
theorem cells_variableRow (config : EmitConfig) (symbol : Symbol) :
    cells (variableRow config symbol).toList =
      cells ('|' :: padded (code symbol.name).toList) ++ padded (typeCell symbol).toList ::
        if config.includeDocs then [padded (cell symbol.doc.toList), []] else [[]] := by
  -- every bar that ends a cell stands behind a blank
  have hrow : (variableRow config symbol).toList =
      '|' :: ' ' :: (code symbol.name).toList ++ ' ' :: '|' ::
        (' ' :: (typeCell symbol).toList ++ ' ' :: '|' ::
          if config.includeDocs then ' ' :: cell symbol.doc.toList ++ ' ' :: '|' :: []
          else []) := by
    rw [toList_variableRow, toList_code]
    simp
  have htype := cellsAfter_padded (boundariesAfter_typeCell symbol)
  have hdoc := cellsAfter_padded (boundariesAfter_cell false symbol.doc.toList)
  rw [hrow, cells, cellsAfter_append_bar, cellsAfter_append_bar]
  show cells ('|' :: padded (code symbol.name).toList) ++
    (cellsAfter false (padded (typeCell symbol).toList) ++ cellsAfter false _) = _
  rw [htype]
  cases config.includeDocs with
  | true =>
    show _ ++ ([_] ++ cellsAfter false (' ' :: cell symbol.doc.toList ++ ' ' :: '|' :: [])) = _
    rw [cellsAfter_append_bar]
    show _ ++ ([_] ++ (cellsAfter false (padded (cell symbol.doc.toList)) ++ [[]])) = _
    rw [hdoc]
    rfl
  | false => rfl

/-! ## 6. Rows and cells -/

/-- A row has the boundaries and line feeds that it is made with and those of the name, whatever
the annotation and the documentation, and a cell without breaks of its own gives back the lines of
its text. -/
theorem variableRow_cells :
    (∀ config symbol,
      boundaries (variableRow config symbol).toList =
          (if config.includeDocs then 4 else 3) + boundaries symbol.name.toList ∧
        (variableRow config symbol).toList.count '\n' = symbol.name.toList.count '\n') ∧
      ∀ text, ¬lineBreak <:+: text → ¬AllBlank text →
        (cutBreaks (cell text)).map unescapeBars = Text.lines (trim text) :=
  ⟨fun config symbol => ⟨boundaries_variableRow config symbol,
    count_newline_variableRow config symbol⟩, fun _ => map_unescapeBars_cutBreaks_cell⟩

/-- Bars with and without backslashes, and a break that two lines seem to make together. -/
def seamSample : Symbol :=
  ⟨"SEAM|", .variable, " x\\|y<br\r\n>| z\\\n|\n", "int |\nNone", by decide⟩

theorem variableRow_cells_seamSample :
    ¬lineBreak <:+: seamSample.doc.toList ∧ ¬AllBlank seamSample.doc.toList ∧
      (cutBreaks (cell seamSample.doc.toList)).map unescapeBars =
        ["x\\|y<br".toList, ">| z\\".toList, "|".toList] ∧
      boundaries (variableRow ⟨true, .tabs, .crlf⟩ seamSample).toList = 5 := by
  have hbreak : ¬lineBreak <:+: seamSample.doc.toList := by decide +kernel
  have hblank : ¬AllBlank seamSample.doc.toList := by decide +kernel
  obtain ⟨hrow, hcell⟩ := variableRow_cells
  exact ⟨hbreak, hblank, (hcell _ hbreak hblank).trans (by decide +kernel),
    (hrow ⟨true, .tabs, .crlf⟩ seamSample).1.trans (by decide +kernel)⟩

end ModuleSurface.Markdown
