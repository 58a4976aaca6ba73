import ModuleSurface.Proofs.Emit.LineEnding
import ModuleSurface.Proofs.Text.Rows

/-!
# Comment — what the documentation of a variable becomes for a reader of rows

The documentation of a variable is cut at line feeds and each line made a comment.  A reader who
also ends a row at a carriage return alone sees a row without a mark behind each carriage return
that is left inside a line.  So the documentation stays a comment if and only if a mark happens to
stand there, and is read back if and only if no carriage return is left (`allComments_iff`).
-/

namespace ModuleSurface

open Text (rows chomp split HasLines EndsLine EachReturn)

/-! ## 1. Lines that are ended, as rows -/

/-- What a reader of rows keeps of a line that is ended: a line feed takes up a carriage return
before it. -/
def LineEnding.kept : LineEnding → List Char → List Char
  | .lf, line => chomp line
  | .crlf, line => line

namespace LineEnding

variable (ending : LineEnding) {line : List Char}

theorem rows_ended (hfeed : '\n' ∉ line) (rest : List Char) :
    rows (line ++ (ending.text.toList ++ rest)) = split '\r' (ending.kept line) ++ rows rest := by
  cases ending with
  | lf => exact Text.rows_append_newline hfeed rest
  | crlf => exact Text.rows_append hfeed (.inl rfl) rest

theorem kept_append (left : List Char) {right : List Char} (hne : right ≠ []) :
    ending.kept (left ++ right) = left ++ ending.kept right := by
  cases ending with
  | lf => exact Text.chomp_append left hne
  | crlf => rfl

theorem kept_of_getLast?_ne (hlast : line.getLast? ≠ some '\r') : ending.kept line = line := by
  cases ending with
  | lf => exact if_neg hlast
  | crlf => rfl

theorem kept_eq_chomp (h : ending = .crlf → line.getLast? ≠ some '\r') :
    ending.kept line = chomp line := by
  cases ending with
  | lf => rfl
  | crlf => exact (if_neg (h rfl)).symm

/-- A line is kept as it is, or loses a row with the carriage return at its end. -/
theorem kept_eq_or_length_lt (line : List Char) :
    ending.kept line = line ∨
      (split '\r' (ending.kept line)).length < (split '\r' line).length := by
  cases ending with
  | crlf => exact .inl rfl
  | lf =>
    by_cases hlast : line.getLast? = some '\r'
    · obtain ⟨front, rfl⟩ := List.getLast?_eq_some_iff.mp hlast
      right
      show (split '\r' (chomp (front ++ ['\r']))).length < _
      rw [Text.chomp_concat_return, Text.split_append_separator]
      simp [split]
    · exact .inl (if_neg hlast)

theorem length_split_kept_le (line : List Char) :
    (split '\r' (ending.kept line)).length ≤ (split '\r' line).length := by
  rcases ending.kept_eq_or_length_lt line with heq | hlt
  · rw [heq]
  · omega

end LineEnding

namespace Stub

/-! ## 2. Comments -/

def marker (line : List Char) : List Char :=
  if line.isEmpty then ['#'] else ['#', ' ']

/-- The line of documentation that a row shows; none if the row is no comment. -/
def uncomment? : List Char → Option (List Char)
  | ['#'] => some []
  | '#' :: ' ' :: line => some line
  | _ => none

def comments (ending : LineEnding) (lines : List (List Char)) : List Char :=
  lines.flatMap fun line => marker line ++ line ++ ending.text.toList

def declaration (symbol : Symbol) : String :=
  symbol.name ++ ": " ++ if symbol.hasSig then symbol.sig else "Any"

def variableText (config : EmitConfig) (symbol : Symbol) : List Char :=
  (config.joinLines (variableLines config symbol)).toList

theorem toList_commentLine (line : List Char) :
    (commentLine (String.ofList line)).toList = marker line ++ line := by
  cases line with
  | nil => rfl
  | cons c more => simp [commentLine, marker]

theorem toList_joinLines_concat (config : EmitConfig) (front : List String) (last : String) :
    (config.joinLines (front ++ [last])).toList =
      (front.flatMap fun line => line.toList ++ config.lineEnding.text.toList) ++
        (last.toList ++ config.lineEnding.text.toList) := by
  rw [EmitConfig.toList_joinLines, List.map_append]
  induction front with
  | nil => simp
  | cons line front ih =>
    rw [List.map_cons, List.cons_append, List.intercalate_cons_of_ne_nil (by simp),
      List.append_assoc, List.append_assoc, ih, List.flatMap_cons, List.append_assoc,
      List.append_assoc]

theorem variableText_eq (indent : Indent) (ending : LineEnding) (symbol : Symbol) :
    variableText ⟨true, indent, ending⟩ symbol =
      comments ending (Text.lines symbol.doc.toList) ++
        ((declaration symbol).toList ++ ending.text.toList) := by
  have hlines : variableLines ⟨true, indent, ending⟩ symbol =
      (textLines symbol.doc.toList).map commentLine ++ [declaration symbol] := by
    rw [variableLines]
    by_cases hdoc : symbol.doc = ""
    · -- without documentation there are no lines of it either
      simp [hdoc, Symbol.hasDoc, textLines, Text.lines, declaration]
    · simp [hdoc, Symbol.hasDoc, declaration]
  rw [variableText, hlines, toList_joinLines_concat, comments, textLines, List.map_map,
    List.flatMap_map]
  simp only [Function.comp_apply, toList_commentLine]

variable (ending : LineEnding) {line : List Char}

theorem rows_comment (hfeed : '\n' ∉ line) :
    ∃ piece more, split '\r' (ending.kept line) = piece :: more ∧
      ∀ rest, rows (marker line ++ line ++ ending.text.toList ++ rest) =
        (marker line ++ piece) :: more ++ rows rest := by
  obtain ⟨piece, more, hsplit⟩ :=
    List.exists_cons_of_ne_nil (Text.split_ne_nil '\r' (ending.kept line))
  refine ⟨piece, more, hsplit, fun rest => ?_⟩
  have hmarked : '\n' ∉ marker line ++ line := by
    rw [List.mem_append, not_or]
    refine ⟨?_, hfeed⟩
    unfold marker
    split <;> decide
  -- the mark has no part in how the line ends, nor is there a carriage return in it
  have hkept : ending.kept (marker line ++ line) = marker line ++ ending.kept line := by
    cases line with
    | nil => cases ending <;> rfl
    | cons c rest => exact ending.kept_append _ (by simp)
  have hreturn : '\r' ∉ marker line := by
    unfold marker
    split <;> decide
  rw [List.append_assoc, ending.rows_ended hmarked, hkept, Text.split_append_of_not_mem hreturn,
    hsplit]
  rfl

theorem comments_cons (lines : List (List Char)) :
    comments ending (line :: lines) =
      marker line ++ line ++ ending.text.toList ++ comments ending lines := rfl

theorem rows_comments_append {lines : List (List Char)} (hfeed : ∀ line ∈ lines, '\n' ∉ line)
    (rest : List Char) :
    rows (comments ending lines ++ rest) = rows (comments ending lines) ++ rows rest := by
  induction lines with
  | nil => rfl
  | cons line lines ih =>
    obtain ⟨hline, hlines⟩ := List.forall_mem_cons.mp hfeed
    obtain ⟨piece, more, -, hrows⟩ := rows_comment ending hline
    rw [comments_cons, List.append_assoc, hrows, hrows, ih hlines, List.append_assoc]

/-! ## 3. Rows that are no comments -/

def IsMarked (row : List Char) : Prop :=
  row.head? = some '#'

theorem isMarked_marker_append (line piece : List Char) : IsMarked (marker line ++ piece) := by
  unfold IsMarked marker
  split <;> rfl

theorem uncomment?_marker_append {line piece : List Char} (h : line = [] → piece = []) :
    uncomment? (marker line ++ piece) = some piece := by
  cases line with
  | nil => rw [h rfl]; rfl
  | cons c more => rfl

/-- A row is never the line that it shows. -/
theorem uncomment?_ne_self (row : List Char) : uncomment? row ≠ some row := by
  intro h
  unfold uncomment? at h
  split at h
  · simp at h
  · have hlength := congrArg List.length (Option.some.inj h)
    simp only [List.length_cons] at hlength
    omega
  · contradiction

theorem map_uncomment?_eq {rows : List (List Char)} (h : rows.map uncomment? = rows.map some) :
    rows = [] := by
  cases rows with
  | nil => rfl
  | cons row more => exact absurd (List.cons.inj h).1 (uncomment?_ne_self row)

/-- The rows behind the first of a line are those that begin behind a carriage return. -/
theorem forall_mem_tail_split_iff (line : List Char) :
    (∀ row ∈ (split '\r' line).tail, IsMarked row) ↔ EachReturn IsMarked line := by
  induction line with
  | nil => simp [split, EachReturn]
  | cons c rest ih =>
    rw [Text.eachReturn_cons_iff, ← ih]
    by_cases hc : c = '\r'
    · obtain ⟨piece, more, hsplit⟩ := List.exists_cons_of_ne_nil (Text.split_ne_nil '\r' rest)
      -- the first of them begins as the text behind the carriage return does
      have hhead : IsMarked piece ↔ IsMarked rest := by
        have hjoin := Text.join_split '\r' rest
        rw [hsplit] at hjoin
        unfold IsMarked
        cases piece with
        | nil =>
          cases more with
          | nil => rw [← hjoin]; rfl
          | cons second more => rw [← hjoin]; simp [Text.join]
        | cons d piece =>
          cases more with
          | nil => rw [← hjoin]; rfl
          | cons second more => rw [← hjoin]; simp [Text.join]
      rw [hc, Text.split_cons_self, List.tail_cons, hsplit, List.forall_mem_cons, hhead]
      simp
    · obtain ⟨piece, more, hsplit, hcons⟩ := Text.exists_split_cons hc rest
      rw [hsplit, hcons]
      simp [hc]

/-- What may stand behind a carriage return that is left in a line of documentation: a mark, or
the end of the line where the line feed takes the carriage return up. -/
def MarksOn (after : List Char) : Prop :=
  IsMarked after ∨ ending = .lf ∧ after = []

theorem eachReturn_kept_iff (line : List Char) :
    EachReturn IsMarked (ending.kept line) ↔ EachReturn (MarksOn ending) line := by
  cases ending with
  | crlf =>
    apply Text.eachReturn_congr
    intro before after _
    simp [MarksOn]
  | lf =>
    show EachReturn IsMarked (chomp line) ↔ _
    by_cases hlast : line.getLast? = some '\r'
    · obtain ⟨front, rfl⟩ := List.getLast?_eq_some_iff.mp hlast
      have hend : EachReturn (MarksOn .lf) ['\r'] := by
        rw [Text.eachReturn_cons_iff]
        exact ⟨fun _ => .inr ⟨rfl, rfl⟩, Text.eachReturn_of_not_mem (by simp)⟩
      rw [Text.chomp_concat_return, Text.eachReturn_append_iff]
      simp only [hend, and_true]
      apply Text.eachReturn_congr
      intro before after _
      -- a carriage return directly before the last one has no mark behind it
      cases after with
      | nil => simp [MarksOn, IsMarked]
      | cons c more => simp [MarksOn, IsMarked]
    · rw [chomp, if_neg hlast]
      apply Text.eachReturn_congr
      rintro before after rfl
      have hne : after ≠ [] := by
        rintro rfl
        simp at hlast
      simp [MarksOn, hne]

/-! ## 4. All rows of a documentation -/

/-- What may stand behind a carriage return of a documentation for the comments to stay comments. -/
def IsHarmless (after : List Char) : Prop :=
  after.head? = some '\n' ∨ IsMarked after ∨ ending = .lf ∧ (after = [] ∨ ['\r', '\n'] <+: after)

/-- What may stand behind a carriage return of a documentation for it to be read back: the line feed
of the same break, or nothing if a line feed follows in the comment. -/
def IsTakenUp (after : List Char) : Prop :=
  after.head? = some '\n' ∨ ending = .lf ∧ after = []

variable {doc tail : List Char} {lines : List (List Char)}

/-- Inside a line, what follows the line matters only behind its last character. -/
theorem eachReturn_isHarmless_iff (hfeed : '\n' ∉ line)
    (htail : line.getLast? = some '\r' → tail = [] ∨ ['\r', '\n'] <+: tail) :
    EachReturn (fun after => IsHarmless ending (after ++ tail)) line ↔
      EachReturn (MarksOn ending) line := by
  apply Text.eachReturn_congr
  rintro before after rfl
  cases after with
  | nil =>
    rcases htail (by simp) with rfl | ⟨rest, rfl⟩ <;> simp [IsHarmless, MarksOn, IsMarked]
  | cons c more =>
    have hc : c ≠ '\n' := fun h => hfeed (by simp [h])
    have hpair : ¬ ['\r', '\n'] <+: c :: (more ++ tail) := by
      rintro ⟨rest, hrest⟩
      obtain ⟨rfl, hnext⟩ := List.cons.inj hrest
      cases more with
      -- a last carriage return has the line feed of its own break behind it, not another pair
      | nil => rcases htail (by simp) with rfl | ⟨later, rfl⟩ <;> simp at hnext
      | cons d more =>
        have hd : '\n' = d := (List.cons.inj hnext).1
        exact hfeed (by rw [← hd]; simp)
    rw [List.cons_append]
    simp [IsHarmless, MarksOn, IsMarked, hc, hpair]

theorem eachReturn_isTakenUp_iff (hfeed : '\n' ∉ line)
    (htail : line.getLast? = some '\r' → ['\r', '\n'] <+: tail) (hne : tail ≠ []) :
    EachReturn (fun after => IsTakenUp ending (after ++ tail)) line ↔ '\r' ∉ line := by
  constructor
  · intro h hmem
    obtain ⟨before, after, rfl⟩ := List.append_of_mem hmem
    have hafter := h before after rfl
    cases after with
    | nil =>
      obtain ⟨rest, rfl⟩ := htail (by simp)
      simp [IsTakenUp] at hafter
    | cons c more =>
      have hc : c ≠ '\n' := fun h => hfeed (by simp [h])
      simp [IsTakenUp, hc] at hafter
  · exact Text.eachReturn_of_not_mem

theorem eachReturn_isTakenUp_line_iff (hfeed : '\n' ∉ line) :
    EachReturn (IsTakenUp ending) line ↔ '\r' ∉ ending.kept line := by
  -- inside a line no line feed follows, so only a carriage return at the end can be taken up
  have hafter : ∀ before after, line = before ++ '\r' :: after →
      (IsTakenUp ending after ↔ ending = .lf ∧ after = []) := by
    rintro before after rfl
    have hhead := Text.head?_ne_newline fun h => hfeed (List.mem_append_right before (.tail _ h))
    simp [IsTakenUp, hhead]
  rw [Text.eachReturn_congr hafter]
  by_cases hlast : line.getLast? = some '\r'
  · obtain ⟨front, rfl⟩ := List.getLast?_eq_some_iff.mp hlast
    rw [Text.eachReturn_append_iff, Text.eachReturn_cons_iff]
    cases ending with
    | lf =>
      show _ ↔ '\r' ∉ chomp (front ++ ['\r'])
      rw [Text.chomp_concat_return]
      constructor
      · intro h hmem
        obtain ⟨before, after, rfl⟩ := List.append_of_mem hmem
        simpa using h.1 before after rfl
      · intro h
        exact ⟨Text.eachReturn_of_not_mem h, fun _ => ⟨rfl, rfl⟩,
          Text.eachReturn_of_not_mem (by simp)⟩
    | crlf => simp [LineEnding.kept]
  · rw [ending.kept_of_getLast?_ne hlast]
    constructor
    · intro h hmem
      obtain ⟨before, after, rfl⟩ := List.append_of_mem hmem
      obtain ⟨-, rfl⟩ := h before after rfl
      simp at hlast
    · exact Text.eachReturn_of_not_mem

/-- Where a line feed behind a carriage return is fine, so is every line's end. -/
theorem eachReturn_endsLine_iff {fine : List Char → Prop} {breaks rest : List Char}
    (hfine : ∀ after, after.head? = some '\n' → fine after) (hending : EndsLine line breaks) :
    EachReturn fine (line ++ (breaks ++ rest)) ↔
      EachReturn (fun after => fine (after ++ (breaks ++ rest))) line ∧ EachReturn fine rest := by
  have hbreaks : EachReturn fine (breaks ++ rest) ↔ EachReturn fine rest := by
    rcases hending with rfl | ⟨rfl, -⟩
    · show EachReturn fine ('\r' :: '\n' :: rest) ↔ _
      rw [Text.eachReturn_cons_iff, Text.eachReturn_cons_iff]
      simp [hfine ('\n' :: rest) rfl]
    · show EachReturn fine ('\n' :: rest) ↔ _
      rw [Text.eachReturn_cons_iff]
      simp
  rw [Text.eachReturn_append_iff, hbreaks]

/-- A line that ends in a carriage return is ended by a line feed with its own. -/
theorem prefix_of_endsLine {breaks : List Char} (hending : EndsLine line breaks) (rest : List Char)
    (hlast : line.getLast? = some '\r') : ['\r', '\n'] <+: breaks ++ rest := by
  rcases hending with rfl | ⟨-, hne⟩
  · exact List.prefix_append _ _
  · exact absurd hlast hne

theorem forall_isMarked_comments_cons_iff (hfeed : '\n' ∉ line) (lines : List (List Char)) :
    (∀ row ∈ rows (comments ending (line :: lines)), IsMarked row) ↔
      EachReturn (MarksOn ending) line ∧ ∀ row ∈ rows (comments ending lines), IsMarked row := by
  obtain ⟨piece, more, hsplit, hrows⟩ := rows_comment ending hfeed
  rw [← eachReturn_kept_iff, ← forall_mem_tail_split_iff, hsplit, List.tail_cons, comments_cons,
    hrows, List.forall_mem_append, List.forall_mem_cons]
  simp [isMarked_marker_append]

theorem forall_isMarked_comments_iff (h : HasLines doc lines) :
    (∀ row ∈ rows (comments ending lines), IsMarked row) ↔
      EachReturn (IsHarmless ending) doc := by
  induction h with
  | nil => exact iff_of_true (by simp [comments, rows]) (Text.eachReturn_of_not_mem (by simp))
  | @last line hfeed hne =>
    have hline : EachReturn (fun after => IsHarmless ending (after ++ [])) line ↔ _ :=
      eachReturn_isHarmless_iff ending hfeed fun _ => .inl rfl
    simp only [List.append_nil] at hline
    rw [forall_isMarked_comments_cons_iff ending hfeed, hline]
    simp [comments, rows]
  | @cons line breaks rest more hfeed hending hrest ih =>
    have hline := eachReturn_isHarmless_iff ending hfeed fun hlast =>
      .inr (prefix_of_endsLine hending rest hlast)
    rw [forall_isMarked_comments_cons_iff ending hfeed, ih, ← hline,
      eachReturn_endsLine_iff (fun _ => .inl) hending]

/-! ## 5. Documentation that is read back -/

theorem isMarked_of_uncomment? {row shown : List Char} (h : uncomment? row = some shown) :
    IsMarked row := by
  unfold uncomment? at h
  split at h
  · rfl
  · rfl
  · contradiction

theorem forall_isMarked_of_map_uncomment?_eq {found shown : List (List Char)}
    (h : found.map uncomment? = shown.map some) : ∀ row ∈ found, IsMarked row := by
  intro row hrow
  have hmem : uncomment? row ∈ shown.map some := h ▸ List.mem_map_of_mem hrow
  obtain ⟨line, -, hline⟩ := List.mem_map.mp hmem
  exact isMarked_of_uncomment? hline.symm

/-- Where the last line is all comments, it ends no further row than the documentation. -/
theorem kept_eq_chomp_of_marksOn (h : EachReturn (MarksOn ending) line) :
    ending.kept line = chomp line := by
  apply ending.kept_eq_chomp
  rintro rfl hlast
  -- nothing would take this carriage return up, and an empty row has no mark
  obtain ⟨front, rfl⟩ := List.getLast?_eq_some_iff.mp hlast
  simpa [MarksOn, IsMarked] using h front [] rfl

/-- Comments that stay comments are no more rows than there are in the documentation. -/
theorem length_rows_comments_le (h : HasLines doc lines)
    (hmarked : ∀ row ∈ rows (comments ending lines), IsMarked row) :
    (rows (comments ending lines)).length ≤ (rows doc).length := by
  induction h with
  | nil => exact Nat.le_refl _
  | @last line hfeed hne =>
    obtain ⟨hmarks, -⟩ := (forall_isMarked_comments_cons_iff ending hfeed []).mp hmarked
    obtain ⟨piece, more, hsplit, hrows⟩ := rows_comment ending hfeed
    rw [comments_cons, hrows, Text.rows_of_not_mem hfeed hne,
      ← kept_eq_chomp_of_marksOn ending hmarks, hsplit]
    simp [comments, rows]
  -- a line may lose a row by being ended, and never wins one
  | @cons line breaks rest more hfeed hending hrest ih =>
    obtain ⟨-, hmore⟩ := (forall_isMarked_comments_cons_iff ending hfeed more).mp hmarked
    obtain ⟨piece, pieces, hsplit, hrows⟩ := rows_comment ending hfeed
    have hline := ending.length_split_kept_le line
    rw [hsplit, List.length_cons] at hline
    rw [comments_cons, hrows, Text.rows_append hfeed hending, List.length_append,
      List.length_append, List.length_cons]
    exact Nat.add_le_add hline (ih hmore)

/-- A comment of a line without carriage returns shows the line. -/
theorem map_uncomment?_comment {kept : List Char} (hfeed : '\n' ∉ line)
    (hkept : ending.kept line = kept) (hreturn : '\r' ∉ kept) (rest : List Char) :
    (rows (marker line ++ line ++ ending.text.toList ++ rest)).map uncomment? =
      some kept :: (rows rest).map uncomment? := by
  subst hkept
  obtain ⟨piece, more, hsplit, hrows⟩ := rows_comment ending hfeed
  rw [Text.split_of_not_mem hreturn] at hsplit
  obtain ⟨rfl, rfl⟩ := List.cons.inj hsplit
  have hempty : line = [] → ending.kept line = [] := by
    rintro rfl
    cases ending <;> rfl
  rw [hrows, List.singleton_append, List.map_cons, uncomment?_marker_append hempty]

/-- Rows that show themselves are all in the first of a line. -/
theorem not_mem_of_map_uncomment?_eq {kept row piece : List Char} {more : List (List Char)}
    (hsplit : split '\r' kept = piece :: more)
    (h : (row :: more).map uncomment? = (split '\r' kept).map some) : '\r' ∉ kept := by
  rw [hsplit] at h
  obtain rfl : more = [] := map_uncomment?_eq (List.cons.inj h).2
  have hjoin := Text.join_split '\r' kept
  rw [hsplit] at hjoin
  obtain rfl : piece = kept := hjoin
  exact Text.not_mem_of_mem_split (hsplit ▸ List.mem_cons_self)

theorem map_uncomment?_comments_iff (h : HasLines doc lines) :
    (rows (comments ending lines)).map uncomment? = (rows doc).map some ↔
      EachReturn (IsTakenUp ending) doc := by
  induction h with
  | nil => exact iff_of_true rfl (Text.eachReturn_of_not_mem (by simp))
  | @last line hfeed hne =>
    rw [eachReturn_isTakenUp_line_iff ending hfeed, Text.rows_of_not_mem hfeed hne]
    constructor
    · intro hshown
      have hmarks := (forall_isMarked_comments_cons_iff ending hfeed []).mp
        (forall_isMarked_of_map_uncomment?_eq hshown)
      obtain ⟨piece, more, hsplit, hrows⟩ := rows_comment ending hfeed
      rw [comments_cons, hrows, ← kept_eq_chomp_of_marksOn ending hmarks.1] at hshown
      exact not_mem_of_map_uncomment?_eq hsplit (by simpa [comments, rows] using hshown)
    · intro hreturn
      have hkept : ending.kept line = chomp line := by
        apply ending.kept_eq_chomp
        rintro rfl hlast
        exact hreturn (List.mem_of_getLast? hlast)
      rw [hkept] at hreturn
      rw [comments_cons, map_uncomment?_comment ending hfeed hkept hreturn,
        Text.split_of_not_mem hreturn]
      rfl
  | @cons line breaks rest more hfeed hending hrest ih =>
    have hbreaks : breaks ++ rest ≠ [] := by
      rcases hending with rfl | ⟨rfl, -⟩ <;> simp
    have hline := eachReturn_isTakenUp_iff ending hfeed (prefix_of_endsLine hending rest) hbreaks
    rw [eachReturn_endsLine_iff (fun _ => .inl) hending, hline, ← ih,
      Text.rows_append hfeed hending, List.map_append]
    constructor
    · intro hshown
      have hmarks := (forall_isMarked_comments_cons_iff ending hfeed more).mp
        (forall_isMarked_of_map_uncomment?_eq (hshown.trans List.map_append.symm))
      have hmore := length_rows_comments_le ending hrest hmarks.2
      obtain ⟨piece, pieces, hsplit, hrows⟩ := rows_comment ending hfeed
      rw [comments_cons, hrows, List.map_append] at hshown
      rcases ending.kept_eq_or_length_lt line with hkept | hlt
      · -- both parts of the comments have as many rows as those of the documentation
        rw [hkept] at hsplit
        obtain ⟨hfirst, hlater⟩ := List.append_inj hshown (by simp [hsplit])
        exact ⟨not_mem_of_map_uncomment?_eq hsplit hfirst, hlater⟩
      · -- a row that this line has lost is not made up for by the later ones
        have hlength := congrArg List.length hshown
        simp only [List.length_append, List.length_map, List.length_cons] at hlength
        rw [hsplit, List.length_cons] at hlt
        omega
    · rintro ⟨hreturn, hmore⟩
      have hkept : ending.kept line = line :=
        ending.kept_of_getLast?_ne fun hlast => hreturn (List.mem_of_getLast? hlast)
      rw [comments_cons, map_uncomment?_comment ending hfeed hkept hreturn,
        Text.split_of_not_mem hreturn, hmore]
      rfl

/-! ## 6. The rows of a variable -/

/-- Whether the rows of a variable above those of its declaration are as they should be. -/
def AboveDeclaration (config : EmitConfig) (symbol : Symbol)
    (fine : List (List Char) → Prop) : Prop :=
  ∃ above, fine above ∧ rows (variableText config symbol) =
    above ++ rows ((declaration symbol).toList ++ config.lineEnding.text.toList)

theorem aboveDeclaration_iff (indent : Indent) (symbol : Symbol) (fine : List (List Char) → Prop) :
    AboveDeclaration ⟨true, indent, ending⟩ symbol fine ↔
      fine (rows (comments ending (Text.lines symbol.doc.toList))) := by
  have hrows := rows_comments_append ending (Text.hasLines_lines symbol.doc.toList).not_mem
    ((declaration symbol).toList ++ ending.text.toList)
  rw [← variableText_eq indent] at hrows
  constructor
  · rintro ⟨above, hfine, habove⟩
    -- the rows of the declaration are known, so there is one way to take them off
    rw [hrows] at habove
    rwa [List.append_cancel_right habove]
  · exact fun hfine => ⟨_, hfine, hrows⟩

/-- Whether all that comes from the documentation of a variable is comments. -/
def AllComments (config : EmitConfig) (symbol : Symbol) : Prop :=
  AboveDeclaration config symbol fun above => ∀ row ∈ above, IsMarked row

/-- Whether the comments of a variable are its documentation, row by row. -/
def ReadsBack (config : EmitConfig) (symbol : Symbol) : Prop :=
  AboveDeclaration config symbol fun above =>
    above.map uncomment? = (rows symbol.doc.toList).map some

/-- The documentation of a variable stays a comment, and is read back, according to what stands
behind its carriage returns. -/
theorem allComments_iff (indent : Indent) (symbol : Symbol) :
    (AllComments ⟨true, indent, ending⟩ symbol ↔
        EachReturn (IsHarmless ending) symbol.doc.toList) ∧
      (ReadsBack ⟨true, indent, ending⟩ symbol ↔
        EachReturn (IsTakenUp ending) symbol.doc.toList) := by
  have hlines := Text.hasLines_lines symbol.doc.toList
  constructor
  · rw [AllComments, aboveDeclaration_iff]
    exact forall_isMarked_comments_iff ending hlines
  · rw [ReadsBack, aboveDeclaration_iff]
    exact map_uncomment?_comments_iff ending hlines

def returnSample : Symbol :=
  ⟨"x", .variable, "a\rb", "int", by decide⟩

/-- Behind the carriage return the documentation is code. -/
theorem not_allComments_returnSample :
    rows (variableText {} returnSample) = ["# a".toList, "b".toList, "x: int".toList] ∧
      ¬ AllComments {} returnSample := by
  constructor
  · decide
  · intro h
    have hmarked := (aboveDeclaration_iff .lf .spaces4 returnSample _).mp h
    exact absurd (hmarked ['b'] (by decide)) (by unfold IsMarked; decide)

end Stub

end ModuleSurface
