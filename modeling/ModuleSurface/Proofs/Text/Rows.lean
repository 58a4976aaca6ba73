import ModuleSurface.Proofs.Text.Split

/-!
# Rows — the lines of a text for a reader to whom a carriage return alone ends a line

Such a reader ends a row at a line feed, at a carriage return with a line feed behind it, and at a
carriage return alone.  The rows of a text are its lines cut at the carriage returns that are left
in them (`rows_append`), but that one at the end of the last line ends a row and begins none
(`rows_of_not_mem`).
-/

namespace ModuleSurface.Text

/-- The rows of a text; a text that ends in a break has no further empty row. -/
def rows : List Char → List (List Char)
  | [] => []
  | '\n' :: rest => [] :: rows rest
  | '\r' :: '\n' :: rest => [] :: rows rest
  | '\r' :: rest => [] :: rows rest
  | c :: rest =>
      match rows rest with
      | [] => [[c]]
      | row :: more => (c :: row) :: more

/-! ## 1. One character more -/

theorem rows_return {rest : List Char} (h : rest.head? ≠ some '\n') :
    rows ('\r' :: rest) = [] :: rows rest := by
  apply rows.eq_4
  rintro tail rfl
  exact h rfl

theorem rows_cons {c : Char} {rest : List Char} (hfeed : c ≠ '\n') (hreturn : c ≠ '\r') :
    rows (c :: rest) = match rows rest with
      | [] => [[c]]
      | row :: more => (c :: row) :: more := by
  apply rows.eq_5 c rest hfeed
  · exact fun _ hc _ => hreturn hc
  · exact hreturn

theorem head?_ne_newline {line : List Char} (hfeed : '\n' ∉ line) : line.head? ≠ some '\n' :=
  fun h => hfeed (List.mem_of_mem_head? h)

/-! ## 2. One line more -/

theorem split_cons_self (separator : Char) (rest : List Char) :
    split separator (separator :: rest) = [] :: split separator rest := by
  rw [split, if_pos rfl]

theorem exists_split_cons {separator c : Char} (hc : c ≠ separator) (rest : List Char) :
    ∃ piece more, split separator rest = piece :: more ∧
      split separator (c :: rest) = (c :: piece) :: more := by
  obtain ⟨piece, more, hsplit⟩ := List.exists_cons_of_ne_nil (split_ne_nil separator rest)
  refine ⟨piece, more, hsplit, ?_⟩
  rw [split, if_neg hc, hsplit]

theorem split_append_of_not_mem {separator : Char} {left : List Char} (h : separator ∉ left)
    (right : List Char) :
    split separator (left ++ right) = (split separator right).modifyHead (left ++ ·) := by
  induction left with
  | nil =>
    show split separator right = (split separator right).modifyHead id
    rw [List.modifyHead_id, id]
  | cons c left ih =>
    obtain ⟨hc, hleft⟩ := not_or.mp (mt List.mem_cons.mpr h)
    obtain ⟨piece, more, hsplit, hcons⟩ := exists_split_cons (Ne.symm hc) (left ++ right)
    rw [ih hleft] at hsplit
    obtain ⟨first, pieces, hright⟩ := List.exists_cons_of_ne_nil (split_ne_nil separator right)
    rw [hright, List.modifyHead_cons] at hsplit ⊢
    obtain ⟨rfl, rfl⟩ := List.cons.inj hsplit
    exact hcons

/-- The carriage returns inside a line cut it into rows. -/
theorem rows_append {line ending : List Char} (hfeed : '\n' ∉ line)
    (hending : EndsLine line ending) (rest : List Char) :
    rows (line ++ (ending ++ rest)) = split '\r' line ++ rows rest := by
  induction line with
  | nil =>
    rcases hending with rfl | ⟨rfl, -⟩
    · show rows ('\r' :: '\n' :: rest) = _
      rw [rows]
      rfl
    · show rows ('\n' :: rest) = _
      rw [rows]
      rfl
  | cons c more ih =>
    have hc : c ≠ '\n' := fun h => hfeed (by simp [h])
    have hmore : '\n' ∉ more := fun h => hfeed (List.mem_cons_of_mem _ h)
    have hends : EndsLine more ending := by
      refine hending.imp_right fun h => ⟨h.1, fun hlast => h.2 ?_⟩
      rw [List.getLast?_cons, hlast]
      rfl
    rw [List.cons_append]
    by_cases hreturn : c = '\r'
    · -- a line feed behind this one would make it part of the ending
      have hhead : (more ++ (ending ++ rest)).head? ≠ some '\n' := by
        cases more with
        | nil =>
          rcases hending with rfl | ⟨rfl, hlast⟩
          · simp
          · exact absurd (by rw [hreturn]; rfl) hlast
        | cons d more => exact fun h => hmore (by simpa using Or.inl (Option.some.inj h).symm)
      rw [hreturn, rows_return hhead, ih hmore hends, split_cons_self]
      rfl
    · obtain ⟨piece, pieces, hsplit, hcons⟩ := exists_split_cons hreturn more
      rw [rows_cons hc hreturn, ih hmore hends, hcons, hsplit]
      rfl

/-- A break at the end of a text that is not at a line's end makes no difference. -/
theorem rows_concat_newline {line : List Char} (hfeed : '\n' ∉ line) (hne : line ≠ []) :
    rows (line ++ ['\n']) = rows line := by
  induction line with
  | nil => exact absurd rfl hne
  | cons c more ih =>
    have hc : c ≠ '\n' := fun h => hfeed (by simp [h])
    have hmore : '\n' ∉ more := fun h => hfeed (List.mem_cons_of_mem _ h)
    rw [List.cons_append]
    by_cases hreturn : c = '\r'
    · subst hreturn
      cases more with
      | nil => rfl
      | cons d more =>
        have hhead : (d :: more ++ ['\n']).head? ≠ some '\n' :=
          fun h => hmore (by simpa using Or.inl (Option.some.inj h).symm)
        rw [rows_return hhead, rows_return (head?_ne_newline hmore), ih hmore (by simp)]
    · rw [rows_cons hc hreturn, rows_cons hc hreturn]
      cases more with
      | nil => rfl
      | cons d more => rw [ih hmore (by simp)]

/-! ## 3. Lines without the carriage return at their end -/

/-- A line without the one carriage return that a line feed behind it would take up. -/
def chomp (line : List Char) : List Char :=
  if line.getLast? = some '\r' then line.dropLast else line

theorem chomp_append (left : List Char) {right : List Char} (hne : right ≠ []) :
    chomp (left ++ right) = left ++ chomp right := by
  have hlast : (left ++ right).getLast? = right.getLast? := by
    rw [List.getLast?_append, List.getLast?_eq_some_getLast hne, Option.some_or]
  rw [chomp, chomp, hlast]
  split
  · rw [List.dropLast_append_of_ne_nil hne]
  · rfl

theorem chomp_concat_return (line : List Char) : chomp (line ++ ['\r']) = line := by
  rw [chomp, if_pos (by simp), List.dropLast_concat]

theorem rows_append_newline {line : List Char} (hfeed : '\n' ∉ line) (rest : List Char) :
    rows (line ++ '\n' :: rest) = split '\r' (chomp line) ++ rows rest := by
  by_cases hlast : line.getLast? = some '\r'
  · obtain ⟨front, rfl⟩ := List.getLast?_eq_some_iff.mp hlast
    have hfront : '\n' ∉ front := fun h => hfeed (List.mem_append_left _ h)
    rw [chomp_concat_return, ← rows_append hfront (.inl rfl) rest]
    simp
  · rw [chomp, if_neg hlast]
    exact rows_append hfeed (.inr ⟨rfl, hlast⟩) rest

theorem rows_of_not_mem {line : List Char} (hfeed : '\n' ∉ line) (hne : line ≠ []) :
    rows line = split '\r' (chomp line) := by
  rw [← rows_concat_newline hfeed hne, rows_append_newline hfeed]
  exact List.append_nil _

/-! ## 4. What stands behind carriage returns -/

/-- Whether what stands behind each carriage return of a text is as it should be. -/
def EachReturn (fine : List Char → Prop) (text : List Char) : Prop :=
  ∀ before after, text = before ++ '\r' :: after → fine after

variable {fine fine' : List Char → Prop} {text : List Char}

theorem eachReturn_of_not_mem (h : '\r' ∉ text) : EachReturn fine text := by
  rintro before after rfl
  exact absurd (by simp) h

theorem eachReturn_congr
    (h : ∀ before after, text = before ++ '\r' :: after → (fine after ↔ fine' after)) :
    EachReturn fine text ↔ EachReturn fine' text :=
  forall₃_congr h

theorem eachReturn_append_iff (left right : List Char) :
    EachReturn fine (left ++ right) ↔
      EachReturn (fun after => fine (after ++ right)) left ∧ EachReturn fine right := by
  constructor
  · intro h
    refine ⟨fun before after heq => ?_, fun before after heq => ?_⟩
    · exact h before (after ++ right) (by rw [heq]; simp)
    · exact h (left ++ before) after (by rw [heq]; simp)
  · rintro ⟨hleft, hright⟩ before after heq
    -- the carriage return is to the right of the seam or to its left
    rcases List.append_eq_append_iff.mp heq with ⟨middle, rfl, hmiddle⟩ | ⟨middle, rfl, hmiddle⟩
    · exact hright middle after hmiddle
    · cases middle with
      | nil => exact hright [] after hmiddle.symm
      | cons c middle =>
        obtain ⟨rfl, rfl⟩ := List.cons.inj hmiddle
        exact hleft before middle rfl

theorem eachReturn_cons_iff {c : Char} (rest : List Char) :
    EachReturn fine (c :: rest) ↔ (c = '\r' → fine rest) ∧ EachReturn fine rest := by
  have hsingle : EachReturn (fun after => fine (after ++ rest)) [c] ↔ (c = '\r' → fine rest) := by
    constructor
    · exact fun h hc => h [] [] (by rw [hc]; rfl)
    · intro h before after heq
      rcases List.singleton_eq_append_iff.mp heq with ⟨rfl, hc⟩ | ⟨-, hc⟩
      · obtain ⟨hreturn, rfl⟩ := List.cons.inj hc
        exact h hreturn.symm
      · contradiction
  rw [← List.singleton_append, eachReturn_append_iff, hsingle]

end ModuleSurface.Text
