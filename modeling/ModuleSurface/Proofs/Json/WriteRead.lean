import Mathlib.Data.List.Forall2
import ModuleSurface.Json.Record
import ModuleSurface.Proofs.Json.Literal

/-!
# WriteRead — written documents are read back in either layout

A reader reads a value back from a written text when it gives the value whatever blanks come
before the text, and leaves what follows (`ReadsBack`).  Readers of items and fields carry over to
readers of lists (`readsBack_readList`) and of records (`readsBack_object`).
-/

namespace ModuleSurface.Json

open Piece (ofChars)

/-! ## 1. Blanks -/

def AllSpace (pieces : List Piece) : Prop :=
  ∀ piece ∈ pieces, isSpace piece = true

theorem allSpace_nil : AllSpace [] :=
  fun _ h => absurd h List.not_mem_nil

theorem allSpace_lineBreak (layout : Layout) (depth : Nat) :
    AllSpace (ofChars (layout.lineBreak depth)) := by
  cases layout with
  | compact => exact allSpace_nil
  | pretty =>
    intro piece hpiece
    obtain ⟨c, hc, rfl⟩ := List.mem_map.mp hpiece
    rcases List.mem_cons.mp hc with rfl | hc
    · rfl
    · rw [List.eq_of_mem_replicate hc]
      rfl

theorem skipBlank_append {lead : List Piece} (h : AllSpace lead) (text : List Piece) :
    skipBlank (lead ++ text) = skipBlank text :=
  List.dropWhile_append_of_pos h

theorem skipBlank_cons {piece : Piece} (h : isSpace piece = false) (rest : List Piece) :
    skipBlank (piece :: rest) = piece :: rest := by
  rw [skipBlank, List.dropWhile_cons, h]
  rfl

/-- The characters that the texts written here begin with. -/
def openingChars : List Char :=
  ['"', '[', '{']

theorem openingChar_isSpace {c : Char} (h : c ∈ openingChars) :
    isSpace (.char c) = false ∧ c ≠ ']' := by
  simp only [openingChars, List.mem_cons, List.not_mem_nil, or_false] at h
  rcases h with rfl | rfl | rfl <;> exact ⟨rfl, by decide⟩

/-- Whether a reader reads a value back from a text, behind any blanks and before any rest. -/
structure ReadsBack {α : Type} (reader : Reader α) (written : List Char) (a : α) : Prop where
  opening : ∃ c more, written = c :: more ∧ c ∈ openingChars
  read : ∀ lead rest, AllSpace lead → reader (lead ++ (ofChars written ++ rest)) = .ok (a, rest)

theorem readsBack_readText (content : List Char) :
    ReadsBack readText (literal content) (String.ofList content) := by
  refine ⟨⟨'"', _, rfl, by decide⟩, ?_⟩
  intro lead rest hlead
  rw [readText, skipBlank_append hlead, ofChars_literal, skipBlank_cons rfl]
  simp only [readString_literal, Except.map]

/-! ## 2. Brackets -/

theorem isSpace_closer (opened : Opened) : isSpace (.char opened.closer) = false := by
  cases opened <;> rfl

theorem within_of_eq_ok {α : Type} {opened : Opened} {content : Reader α} {text : List Piece}
    {a : α} {rest : List Piece} (h : content text = .ok (a, .char opened.closer :: rest)) :
    within opened content text = .ok (a, rest) := by
  have hclose : closeBracket opened (.char opened.closer :: rest) = .ok rest := by
    rw [closeBracket, skipBlank_cons (isSpace_closer opened)]
    exact if_pos rfl
  rw [within, h]
  simp only [hclose, Except.map]

/-! ## 3. Lists -/

section Lists

variable {α : Type} {item : Reader α} {layout : Layout} {depth : Nat}

theorem readListStep_close (first : Bool) {lead : List Piece} (hlead : AllSpace lead)
    (rest : List Piece) :
    readListStep first (lead ++ .char ']' :: rest) = .ok (false, .char ']' :: rest) := by
  rw [readListStep, skipBlank_append hlead, skipBlank_cons rfl]
  rfl

theorem readListStep_first {c : Char} (hspace : isSpace (.char c) = false) (hclose : c ≠ ']')
    {lead : List Piece} (hlead : AllSpace lead) (rest : List Piece) :
    readListStep true (lead ++ .char c :: rest) = .ok (true, .char c :: rest) := by
  rw [readListStep, skipBlank_append hlead, skipBlank_cons hspace]
  split
  · contradiction
  · rename_i hcons
    exact absurd (Piece.char.inj (List.cons.inj hcons).1) hclose
  · rename_i hcons
    rw [hcons]
    rfl

theorem readListStep_comma {c : Char} (hspace : isSpace (.char c) = false) (hclose : c ≠ ']')
    {gap lead : List Piece} (hgap : AllSpace gap) (hlead : AllSpace lead) (rest : List Piece) :
    readListStep false (gap ++ .char ',' :: (lead ++ .char c :: rest)) =
      .ok (true, .char c :: rest) := by
  have hskip : skipBlank (lead ++ .char c :: rest) = .char c :: rest := by
    rw [skipBlank_append hlead, skipBlank_cons hspace]
  rw [readListStep, skipBlank_append hgap, skipBlank_cons rfl]
  split
  · contradiction
  · rename_i hcons
    exact absurd (Piece.char.inj (List.cons.inj hcons).1) (by decide)
  · rename_i hcons
    obtain ⟨rfl, rfl⟩ := List.cons.inj hcons
    rw [if_neg Bool.false_ne_true, if_pos rfl, hskip]
    split
    · contradiction
    · rename_i hcons
      exact absurd (Piece.char.inj (List.cons.inj hcons).1) hclose
    · rfl

theorem readItems_of_step {bound : Nat} {first : Bool} {text after rest : List Piece}
    {written : List Char} {a : α} {values : List α} (hitem : ReadsBack item written a)
    (hstep : readListStep first text = .ok (true, ofChars written ++ after))
    (hitems : readItems item bound false after = .ok (values, rest)) :
    readItems item (bound + 1) first text = .ok (a :: values, rest) := by
  have hread := hitem.read [] after allSpace_nil
  rw [List.nil_append] at hread
  simp only [readItems, hstep, bind, Except.bind, hread, hitems]
  rfl

theorem readItems_writeItems {documents : List Json} {values : List α}
    (h : List.Forall₂ (fun document a => ReadsBack item (document.write layout depth) a) documents
      values)
    {lead : List Piece} (hlead : AllSpace lead) (rest : List Piece) {bound : Nat}
    (hbound : documents.length < bound) :
    readItems item bound false
        (ofChars (writeItems layout depth documents) ++ (lead ++ .char ']' :: rest)) =
      .ok (values, .char ']' :: rest) := by
  induction h generalizing bound with
  | nil =>
    obtain ⟨bound, rfl⟩ := Nat.exists_eq_add_of_lt hbound
    -- blanks before the closing bracket belong to the layout
    simp only [writeItems, ofChars_nil, List.nil_append, readItems, readListStep_close false hlead,
      bind, Except.bind]
    rfl
  | @cons document a documents values hitem _ ih =>
    obtain ⟨bound, rfl⟩ : ∃ n, bound = n + 1 := ⟨bound - 1, by omega⟩
    rw [List.length_cons] at hbound
    -- the step looks at the first character of the item and leaves the item where it is
    obtain ⟨c, more, hwritten, hc⟩ := hitem.opening
    refine readItems_of_step hitem ?_ (ih (by omega))
    obtain ⟨hspace, hclose⟩ := openingChar_isSpace hc
    have hstep := readListStep_comma hspace hclose allSpace_nil (allSpace_lineBreak layout depth)
      (ofChars more ++ (ofChars (writeItems layout depth documents) ++
        (lead ++ .char ']' :: rest)))
    rw [hwritten]
    simp only [writeItems, ofChars_cons, ofChars_append, hwritten, List.cons_append,
      List.append_assoc] at hstep ⊢
    exact hstep

theorem length_le_writeItems (layout : Layout) (depth : Nat) (documents : List Json) :
    documents.length ≤ (writeItems layout depth documents).length := by
  induction documents with
  | nil => exact Nat.zero_le _
  | cons document documents ih =>
    simp only [writeItems, List.length_cons, List.length_append]
    omega

theorem readList_open {lead : List Piece} (hlead : AllSpace lead) (text : List Piece) :
    readList item (lead ++ .char '[' :: text) =
      within .list (readItems item (text.length + 1) true) text := by
  rw [readList, skipBlank_append hlead, skipBlank_cons rfl]
  rfl

/-- A reader of items carries over to lists. -/
theorem readsBack_readList {documents : List Json} {values : List α}
    (h : List.Forall₂ (fun document a => ReadsBack item (document.write layout (depth + 1)) a)
      documents values) :
    ReadsBack (readList item) ((Json.array documents).write layout depth) values := by
  refine ⟨by cases documents <;> exact ⟨'[', _, rfl, by decide⟩, ?_⟩
  intro lead rest hlead
  cases h with
  | nil =>
    show readList item (lead ++ .char '[' :: .char ']' :: rest) = .ok ([], rest)
    rw [readList_open hlead]
    refine within_of_eq_ok ?_
    have hstep := readListStep_close true allSpace_nil rest
    simp only [List.nil_append] at hstep ⊢
    simp only [readItems, hstep, bind, Except.bind]
    rfl
  | @cons document a documents values hitem hitems =>
    obtain ⟨c, more, hwritten, hc⟩ := hitem.opening
    have hbreak := allSpace_lineBreak layout depth
    have htext : ofChars ((Json.array (document :: documents)).write layout depth) ++ rest =
        .char '[' :: (ofChars (layout.lineBreak (depth + 1)) ++
          (ofChars (document.write layout (depth + 1)) ++
            (ofChars (writeItems layout (depth + 1) documents) ++
              (ofChars (layout.lineBreak depth) ++ .char ']' :: rest)))) := by
      simp only [Json.write, ofChars_cons, ofChars_append, ofChars_nil, List.cons_append,
        List.append_assoc, List.nil_append]
    rw [htext, readList_open hlead]
    refine within_of_eq_ok (readItems_of_step hitem ?_ (readItems_writeItems hitems hbreak rest ?_))
    · rw [hwritten, ofChars_cons, List.cons_append]
      obtain ⟨hspace, hclose⟩ := openingChar_isSpace hc
      exact readListStep_first hspace hclose (allSpace_lineBreak layout (depth + 1)) _
    · -- the bound is the length of the text, and each item takes up some of it
      have hlength := length_le_writeItems layout (depth + 1) documents
      simp only [List.length_append, List.length_cons, Piece.ofChars, List.length_map]
      omega

end Lists

/-! ## 4. Records -/

section Records

variable {Draft α : Type} {schema : Schema Draft α} {layout : Layout} {depth : Nat}

/-- The draft that the members of a written record lead to, from a draft on. -/
inductive Fills (schema : Schema Draft α) (layout : Layout) (depth : Nat) :
    Draft → List (List Char × Json) → Draft → Prop
  | nil {draft : Draft} : Fills schema layout depth draft [] draft
  | cons {draft next last : Draft} {field : Field Draft} {key : List Char} {value : Json}
      {members : List (List Char × Json)}
      (hfind : schema.fields.find? (·.key.toList == key) = some field)
      (hgiven : field.isGiven draft = false)
      (hread : ReadsBack (field.read draft) (value.write layout depth) next)
      (hmembers : Fills schema layout depth next members last) :
      Fills schema layout depth draft ((key, value) :: members) last

theorem readMemberStep_close (first : Bool) {lead : List Piece} (hlead : AllSpace lead)
    (rest : List Piece) :
    readMemberStep first (lead ++ .char '}' :: rest) = .ok (.char '}' :: rest) := by
  rw [readMemberStep, skipBlank_append hlead, skipBlank_cons rfl]
  rfl

theorem readMemberStep_first {lead : List Piece} (hlead : AllSpace lead) (rest : List Piece) :
    readMemberStep true (lead ++ .char '"' :: rest) = .ok (.char '"' :: rest) := by
  rw [readMemberStep, skipBlank_append hlead, skipBlank_cons rfl]
  rfl

theorem readMemberStep_comma {gap lead : List Piece} (hgap : AllSpace gap) (hlead : AllSpace lead)
    (rest : List Piece) :
    readMemberStep false (gap ++ .char ',' :: (lead ++ .char '"' :: rest)) =
      .ok (.char '"' :: rest) := by
  have hcomma : isSpace (.char ',') = false := rfl
  have hskip : skipBlank (lead ++ .char '"' :: rest) = .char '"' :: rest := by
    rw [skipBlank_append hlead, skipBlank_cons rfl]
  simp [readMemberStep, skipBlank_append hgap, skipBlank_cons hcomma, hskip]

theorem exists_readColon (layout : Layout) : ∃ lead, AllSpace lead ∧
    ∀ text, readColon (ofChars layout.colon ++ text) = .ok (lead ++ text) := by
  cases layout with
  | compact => exact ⟨[], allSpace_nil, fun _ => rfl⟩
  | pretty =>
    refine ⟨[.char ' '], ?_, fun _ => rfl⟩
    intro piece hpiece
    rw [List.mem_singleton.mp hpiece]
    rfl

/-- A member of a known field that is not given yet is read into the draft. -/
theorem readMember_of_find (layout : Layout) {draft next : Draft} {field : Field Draft}
    {key value : List Char} (hfind : schema.fields.find? (·.key.toList == key) = some field)
    (hgiven : field.isGiven draft = false) (hread : ReadsBack (field.read draft) value next)
    (rest : List Piece) :
    readMember schema draft
        (ofChars (literal key) ++ (ofChars layout.colon ++ (ofChars value ++ rest))) =
      .ok (next, rest) := by
  obtain ⟨lead, hlead, hcolon⟩ := exists_readColon layout
  rw [ofChars_literal, readMember]
  simp only [readString_literal, bind, Except.bind, hfind, hgiven, Bool.false_eq_true, if_false,
    hcolon]
  exact hread.read lead rest hlead

theorem readMembers_of_step {bound : Nat} {first : Bool} {draft next last : Draft}
    {text after rest : List Piece} {more : List Piece}
    (hstep : readMemberStep first text = .ok (.char '"' :: more))
    (hmember : readMember schema draft (.char '"' :: more) = .ok (next, after))
    (hmembers : readMembers schema bound false next after = .ok (last, rest)) :
    readMembers schema (bound + 1) first draft text = .ok (last, rest) := by
  simp [readMembers, hstep, bind, Except.bind, hmember, hmembers]

theorem readMembers_writeMembers {draft last : Draft} {members : List (List Char × Json)}
    (h : Fills schema layout depth draft members last) {lead : List Piece} (hlead : AllSpace lead)
    (rest : List Piece) {bound : Nat} (hbound : members.length < bound) :
    readMembers schema bound false draft
        (ofChars (writeMembers layout depth members) ++ (lead ++ .char '}' :: rest)) =
      .ok (last, .char '}' :: rest) := by
  induction h generalizing bound with
  | nil =>
    obtain ⟨bound, rfl⟩ : ∃ n, bound = n + 1 := ⟨bound - 1, by omega⟩
    simp only [writeMembers, ofChars_nil, List.nil_append, readMembers,
      readMemberStep_close false hlead, bind, Except.bind]
    rfl
  | @cons draft next last field key value members hfind hgiven hread _ ih =>
    obtain ⟨bound, rfl⟩ : ∃ n, bound = n + 1 := ⟨bound - 1, by omega⟩
    rw [List.length_cons] at hbound
    have hmember := readMember_of_find layout hfind hgiven hread
      (ofChars (writeMembers layout depth members) ++ (lead ++ .char '}' :: rest))
    -- the step stops at the quote that opens the key
    rw [ofChars_literal] at hmember
    refine readMembers_of_step ?_ hmember (ih (by omega))
    have hstep := readMemberStep_comma allSpace_nil (allSpace_lineBreak layout depth)
      (ofChars (key.flatMap literalChar) ++ .char '"' :: (ofChars layout.colon ++
        (ofChars (value.write layout depth) ++ (ofChars (writeMembers layout depth members) ++
          (lead ++ .char '}' :: rest)))))
    rw [← ofChars_literal] at hstep ⊢
    simp only [writeMembers, ofChars_cons, ofChars_append, List.cons_append, List.append_assoc]
    exact hstep

theorem length_le_writeMembers (layout : Layout) (depth : Nat) (members : List (List Char × Json)) :
    members.length ≤ (writeMembers layout depth members).length := by
  induction members with
  | nil => exact Nat.zero_le _
  | cons member members ih =>
    obtain ⟨key, value⟩ := member
    simp only [writeMembers, List.length_cons, List.length_append]
    omega

theorem Schema.read_open {lead : List Piece} (hlead : AllSpace lead) (text : List Piece) :
    schema.read (lead ++ .char '{' :: text) =
      within .record (fun text' => do
        let (draft, rest) ← readMembers schema (text.length + 1) true schema.empty text'
        finishDraft schema draft rest) text := by
  rw [Schema.read, skipBlank_append hlead, skipBlank_cons rfl]
  rfl

/-- Readers of fields carry over to records that are written with all their fields. -/
theorem readsBack_object {members : List (List Char × Json)} {last : Draft} {a : α}
    (hne : members ≠ []) (h : Fills schema layout (depth + 1) schema.empty members last)
    (hfinish : schema.finish last = .ok a) :
    ReadsBack schema.read ((Json.object members).write layout depth) a := by
  obtain ⟨⟨key, value⟩, members, rfl⟩ := List.exists_cons_of_ne_nil hne
  refine ⟨⟨'{', _, rfl, by decide⟩, ?_⟩
  intro lead rest hlead
  cases h with
  | @cons _ next _ field _ _ _ hfind hgiven hread hmembers =>
    have hbreak := allSpace_lineBreak layout depth
    have htext : ofChars ((Json.object ((key, value) :: members)).write layout depth) ++ rest =
        .char '{' :: (ofChars (layout.lineBreak (depth + 1)) ++ (ofChars (literal key) ++
          (ofChars layout.colon ++ (ofChars (value.write layout (depth + 1)) ++
            (ofChars (writeMembers layout (depth + 1) members) ++
              (ofChars (layout.lineBreak depth) ++ .char '}' :: rest)))))) := by
      simp only [Json.write, ofChars_cons, ofChars_append, ofChars_nil, List.cons_append,
        List.append_assoc, List.nil_append]
    rw [htext, Schema.read_open hlead]
    have hmember := readMember_of_find layout hfind hgiven hread
      (ofChars (writeMembers layout (depth + 1) members) ++
        (ofChars (layout.lineBreak depth) ++ .char '}' :: rest))
    rw [ofChars_literal] at hmember ⊢
    have hlength := length_le_writeMembers layout (depth + 1) members
    -- the bound is left open here, since it is a length of the text that is still to be opened
    have hmembers' := fun bound (hbound : members.length < bound) =>
      readMembers_of_step (readMemberStep_first (allSpace_lineBreak layout (depth + 1)) _) hmember
        (readMembers_writeMembers hmembers hbreak rest hbound)
    refine within_of_eq_ok ?_
    rw [hmembers']
    · simp only [bind, Except.bind, finishDraft, hfinish]
      rfl
    · simp only [List.length_append, List.length_cons, Piece.ofChars, List.length_map]
      omega

theorem readDocument_of_readsBack {reader : Reader α} {written : List Char} {a : α}
    (h : ReadsBack reader written a) {tail : List Piece} (htail : AllSpace tail) :
    readDocument reader (ofChars written ++ tail) = .ok a := by
  have hread := h.read [] tail allSpace_nil
  rw [List.nil_append] at hread
  have hskip : skipBlank tail = [] := by
    rw [← List.append_nil tail, skipBlank_append htail]
    rfl
  simp only [readDocument, hread, bind, Except.bind, hskip]
  rfl

end Records

end ModuleSurface.Json
