import ModuleSurface.Text.Lines

/-!
# Split — cut texts, joined pieces and lines

Cutting at a separator and joining are the library's `List.splitOn` and `List.intercalate`, whose
laws hold for texts too.  Lines are cut at either line ending (`HasLines`); a text has just the
lines that `lines` gives (`hasLines_lines`).
-/

namespace ModuleSurface.Text

/-! ## 1. Pieces -/

theorem split_eq_splitOn (separator : Char) (text : List Char) :
    split separator text = text.splitOn separator := by
  induction text with
  | nil => rfl
  | cons c rest ih =>
    rw [split, List.splitOn_cons_eq_if_modifyHead, ← ih]
    by_cases hc : c = separator
    · rw [if_pos hc, if_pos (beq_iff_eq.mpr hc)]
    · rw [if_neg hc, if_neg (by simpa using hc)]
      cases hsplit : split separator rest with
      | nil => exact absurd hsplit (split_ne_nil separator rest)
      | cons piece pieces => rfl

theorem join_cons_cons (separator piece second : List Char) (more : List (List Char)) :
    join separator (piece :: second :: more) =
      piece ++ separator ++ join separator (second :: more) := rfl

theorem join_eq_intercalate (separator : List Char) (pieces : List (List Char)) :
    join separator pieces = separator.intercalate pieces := by
  induction pieces with
  | nil => rfl
  | cons piece more ih =>
    cases more with
    | nil => simp [join]
    | cons second more => rw [join, ih, List.intercalate_cons_cons, List.append_assoc]; simp

theorem split_append_separator (separator : Char) (left right : List Char) :
    split separator (left ++ separator :: right) =
      split separator left ++ split separator right := by
  simp only [split_eq_splitOn, List.splitOn_append_cons_self]

theorem split_of_not_mem {separator : Char} {text : List Char} (h : separator ∉ text) :
    split separator text = [text] := by
  rw [split_eq_splitOn, List.splitOn_eq_singleton h]

theorem split_join {separator : Char} {pieces : List (List Char)}
    (hpieces : ∀ piece ∈ pieces, separator ∉ piece) (hne : pieces ≠ []) :
    split separator (join [separator] pieces) = pieces := by
  rw [split_eq_splitOn, join_eq_intercalate, List.splitOn_intercalate separator hpieces hne]

theorem not_mem_of_mem_split {separator : Char} {text piece : List Char}
    (h : piece ∈ split separator text) : separator ∉ piece := by
  induction text generalizing piece with
  | nil =>
    rw [split, List.mem_singleton] at h
    rw [h]
    exact List.not_mem_nil
  | cons c rest ih =>
    rw [split] at h
    by_cases hc : c = separator
    · rw [if_pos hc] at h
      cases h with
      | head => exact List.not_mem_nil
      | tail _ h => exact ih h
    · rw [if_neg hc] at h
      cases hsplit : split separator rest with
      | nil => exact absurd hsplit (split_ne_nil separator rest)
      | cons first more =>
        rw [hsplit] at h ih
        cases h with
        | head =>
          -- the first piece is that of the rest, with one character more
          have hfirst := ih List.mem_cons_self
          simp only [List.mem_cons, not_or]
          exact ⟨Ne.symm hc, hfirst⟩
        | tail _ h => exact ih (List.mem_cons_of_mem _ h)

theorem mem_join {separator : List Char} {pieces : List (List Char)} {c : Char}
    (h : c ∈ join separator pieces) : c ∈ separator ∨ ∃ piece ∈ pieces, c ∈ piece := by
  rw [join_eq_intercalate] at h
  induction pieces with
  | nil => exact absurd h List.not_mem_nil
  | cons first more ih =>
    cases more with
    | nil => exact .inr ⟨first, List.mem_cons_self, by simpa using h⟩
    | cons second more =>
      rw [List.intercalate_cons_cons, List.mem_append, List.mem_append] at h
      rcases h with (hfirst | hseparator) | hmore
      · exact .inr ⟨first, List.mem_cons_self, hfirst⟩
      · exact .inl hseparator
      · refine (ih hmore).imp_right fun ⟨piece, hpiece, hc⟩ => ?_
        exact ⟨piece, List.mem_cons_of_mem _ hpiece, hc⟩

theorem mem_join_of_mem {separator piece : List Char} {pieces : List (List Char)} {c : Char}
    (hpiece : piece ∈ pieces) (hc : c ∈ piece) : c ∈ join separator pieces := by
  rw [join_eq_intercalate]
  induction pieces with
  | nil => exact absurd hpiece List.not_mem_nil
  | cons first more ih =>
    cases more with
    | nil =>
      rw [List.mem_singleton] at hpiece
      simpa [hpiece] using hc
    | cons second more =>
      rw [List.intercalate_cons_cons, List.mem_append, List.mem_append]
      rcases List.mem_cons.mp hpiece with rfl | hmore
      · exact .inl (.inl hc)
      · exact .inr (ih hmore)

theorem mem_of_mem_split {separator c : Char} {text piece : List Char}
    (hpiece : piece ∈ split separator text) (hc : c ∈ piece) : c ∈ text := by
  rw [← join_split separator text]
  exact mem_join_of_mem hpiece hc

/-- A text has the characters of its pieces and separators. -/
theorem exists_mem_split {separator c : Char} {text : List Char} (hc : c ∈ text)
    (hne : c ≠ separator) : ∃ piece ∈ split separator text, c ∈ piece := by
  rw [← join_split separator text] at hc
  exact (mem_join hc).resolve_left (by simpa using hne)

/-- A suffix of a joined text is one of its last piece. -/
theorem join_concat_append (separator last suffix : List Char) (pieces : List (List Char)) :
    join separator (pieces ++ [last]) ++ suffix = join separator (pieces ++ [last ++ suffix]) := by
  simp only [join_eq_intercalate]
  induction pieces with
  | nil => simp
  | cons piece pieces ih =>
    cases pieces with
    | nil => simp
    | cons second more =>
      simp only [List.cons_append, List.intercalate_cons_cons, List.append_assoc] at ih ⊢
      rw [ih]

/-! ## 2. Lines -/

theorem lines_cons {c : Char} {rest : List Char} (hfeed : c ≠ '\n')
    (hreturn : c = '\r' → rest.head? ≠ some '\n') :
    lines (c :: rest) = match lines rest with
      | [] => [[c]]
      | line :: more => (c :: line) :: more := by
  apply lines.eq_4 c rest hfeed
  intro tail hc hrest
  apply hreturn hc
  rw [hrest]
  rfl

theorem lines_of_not_mem {line : List Char} (hfeed : '\n' ∉ line) (hne : line ≠ []) :
    lines line = [line] := by
  induction line with
  | nil => exact absurd rfl hne
  | cons c rest ih =>
    have hc : c ≠ '\n' := fun h => hfeed (by simp [h])
    have hrest : '\n' ∉ rest := fun h => hfeed (List.mem_cons_of_mem _ h)
    have hhead : rest.head? ≠ some '\n' := fun h => hrest (List.mem_of_mem_head? h)
    rw [lines_cons hc fun _ => hhead]
    cases rest with
    | nil => rfl
    | cons d more => rw [ih hrest (by simp)]

/-- Whether a text ends a line: a line feed, with the carriage return before it if there is one. -/
def EndsLine (line ending : List Char) : Prop :=
  ending = ['\r', '\n'] ∨ ending = ['\n'] ∧ line.getLast? ≠ some '\r'

theorem lines_append {line ending : List Char} (hfeed : '\n' ∉ line)
    (hending : EndsLine line ending) (rest : List Char) :
    lines (line ++ (ending ++ rest)) = line :: lines rest := by
  induction line with
  | nil =>
    unfold EndsLine at hending
    rcases hending with rfl | ⟨rfl, -⟩
    · show lines ('\r' :: '\n' :: rest) = _
      rw [lines]
    · show lines ('\n' :: rest) = _
      rw [lines]
  | cons c more ih =>
    have hc : c ≠ '\n' := fun h => hfeed (by simp [h])
    have hmore : '\n' ∉ more := fun h => hfeed (List.mem_cons_of_mem _ h)
    have hends : EndsLine more ending := by
      refine hending.imp_right fun h => ⟨h.1, fun hlast => h.2 ?_⟩
      rw [List.getLast?_cons, hlast]
      rfl
    rw [List.cons_append, lines_cons hc, ih hmore hends]
    -- a carriage return before the line feed would belong to the ending
    intro hreturn hhead
    cases more with
    | nil =>
      rcases hending with rfl | ⟨rfl, hlast⟩
      · simp at hhead
      · exact hlast (by rw [hreturn]; rfl)
    | cons d more =>
      rw [List.cons_append, List.head?_cons, Option.some.injEq] at hhead
      exact hmore (by simp [hhead])

/-- The lines of a text, said by how the text is made up of them. -/
inductive HasLines : List Char → List (List Char) → Prop
  | nil : HasLines [] []
  | last {line : List Char} (hfeed : '\n' ∉ line) (hne : line ≠ []) : HasLines line [line]
  | cons {line ending rest : List Char} {more : List (List Char)} (hfeed : '\n' ∉ line)
      (hending : EndsLine line ending) (hrest : HasLines rest more) :
      HasLines (line ++ (ending ++ rest)) (line :: more)

theorem HasLines.lines_eq {text : List Char} {found : List (List Char)} (h : HasLines text found) :
    lines text = found := by
  induction h with
  | nil => rfl
  | last hfeed hne => exact lines_of_not_mem hfeed hne
  | cons hfeed hending _ ih => rw [lines_append hfeed hending, ih]

theorem HasLines.not_mem {text : List Char} {found : List (List Char)} (h : HasLines text found) :
    ∀ line ∈ found, '\n' ∉ line := by
  induction h with
  | nil => exact fun _ hline => absurd hline List.not_mem_nil
  | last hfeed _ => simpa using hfeed
  | cons hfeed _ _ ih => exact List.forall_mem_cons.mpr ⟨hfeed, ih⟩

theorem HasLines.isInfix_of_mem {text : List Char} {found : List (List Char)}
    (h : HasLines text found) : ∀ line ∈ found, line <:+: text := by
  induction h with
  | nil => exact fun _ hline => absurd hline List.not_mem_nil
  | last _ _ => exact List.forall_mem_singleton.mpr List.infix_rfl
  | @cons line ending rest more _ _ _ ih =>
    rw [List.forall_mem_cons]
    constructor
    · exact (List.prefix_append _ _).isInfix
    · intro later hlater
      have hrest : rest <:+ line ++ (ending ++ rest) := ⟨line ++ ending, List.append_assoc ..⟩
      exact (ih later hlater).trans hrest.isInfix

theorem HasLines.eq_nil {text : List Char} (h : HasLines text []) : text = [] := by
  cases h
  rfl

theorem exists_endsLine {text : List Char} (hfeed : '\n' ∉ text) :
    ∃ line ending, text ++ ['\n'] = line ++ ending ∧ '\n' ∉ line ∧ EndsLine line ending := by
  by_cases hlast : text.getLast? = some '\r'
  · obtain ⟨line, rfl⟩ := List.getLast?_eq_some_iff.mp hlast
    exact ⟨line, ['\r', '\n'], by simp, fun h => hfeed (by simp [h]), .inl rfl⟩
  · exact ⟨text, ['\n'], rfl, hfeed, .inr ⟨rfl, hlast⟩⟩

theorem exists_hasLines (text : List Char) : ∃ found, HasLines text found := by
  -- what follows the first line is shorter than the text
  induction hlength : text.length using Nat.strongRecOn generalizing text with
  | ind length ih =>
    by_cases hfeed : '\n' ∈ text
    · obtain ⟨front, rest, htext, hfront⟩ := List.eq_append_cons_of_mem hfeed
      obtain ⟨line, ending, hline, hfree, hending⟩ := exists_endsLine hfront
      obtain ⟨more, hmore⟩ := ih rest.length (by rw [← hlength, htext]; simp; omega) rest rfl
      have hsplit : text = line ++ (ending ++ rest) := by
        rw [htext, ← List.append_assoc, ← hline, List.append_assoc, List.singleton_append]
      exact ⟨line :: more, hsplit ▸ .cons hfree hending hmore⟩
    · by_cases hne : text = []
      · exact ⟨[], hne ▸ .nil⟩
      · exact ⟨[text], .last hfeed hne⟩

theorem hasLines_lines (text : List Char) : HasLines text (lines text) := by
  obtain ⟨found, hfound⟩ := exists_hasLines text
  rwa [hfound.lines_eq]

end ModuleSurface.Text
