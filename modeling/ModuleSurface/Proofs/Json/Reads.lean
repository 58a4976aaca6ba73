import ModuleSurface.Proofs.Json.Past

/-!
# Reads — what readers make of the documents of the grammar

A reader is described by a partial function of documents (`Reads`): behind any blanks it takes
the text of a document as the value that the function gives, and fails where there is none.  A
description of the items carries over to lists, and descriptions of the fields to records, in
both of their forms.
-/

namespace ModuleSurface.Json

open Piece (ofChars)

/-! ## 1. Results without their faults -/

section Results

variable {ε α β : Type}

theorem toOption_bind (x : Except ε α) (f : α → Except ε β) :
    (x >>= f).toOption = x.toOption.bind fun a => (f a).toOption := by
  cases x <;> rfl

theorem toOption_map (x : Except ε α) (f : α → β) : (x.map f).toOption = x.toOption.map f := by
  cases x <;> rfl

theorem toOption_eq_some_iff {x : Except ε α} {a : α} : x.toOption = some a ↔ x = .ok a := by
  cases x <;> simp [Except.toOption]

theorem toOption_eq_none_iff {x : Except ε α} : x.toOption = none ↔ ∃ fault, x = .error fault := by
  cases x <;> simp [Except.toOption]

end Results

/-- Whether a reader makes of the text of each document what a function says, behind any blanks
and before whatever may follow. -/
def Reads {α : Type} (reader : Reader α) (meaning : Json → Option α) : Prop :=
  ∀ ⦃text : List Char⦄ ⦃document : Json⦄, Denotes text document →
    ∀ ⦃lead rest : List Piece⦄, AllSpace lead → Follows rest →
      (reader (lead ++ (ofChars text ++ rest))).toOption = (meaning document).map (·, rest)

theorem Denotes.exists_skipBlank {text : List Char} {document : Json} (h : Denotes text document)
    {lead : List Piece} (hlead : AllSpace lead) (rest : List Piece) :
    ∃ c more, skipBlank (lead ++ (ofChars text ++ rest)) = .char c :: more ∧
      Begins c document := by
  obtain ⟨c, more, rfl, hbegins⟩ := h.exists_begins
  refine ⟨c, ofChars more ++ rest, ?_, hbegins⟩
  rw [skipBlank_append hlead]
  exact skipBlank_cons hbegins.space _

/-! ## 2. Strings -/

def text? : Json → Option String
  | .string content => some (.ofList content)
  | _ => none

theorem reads_readText : Reads readText text? := by
  intro text document h lead rest hlead _
  by_cases hstring : ∃ content, document = .string content
  · obtain ⟨content, rfl⟩ := hstring
    cases h with
    | @string _ written hcontent =>
      have hread := readString_spells hcontent rest
      rw [ofChars_cons, ofChars_append, List.cons_append, List.append_assoc, readText,
        skipBlank_append hlead, skipBlank_cons rfl]
      show ((readString (ofChars written ++ .char '"' :: rest)).map _).toOption = _
      rw [hread]
      rfl
  · -- any other document begins with a character that is no quote
    have hmeaning : text? document = none := by
      cases document <;> first | rfl | exact absurd ⟨_, rfl⟩ hstring
    obtain ⟨c, more, hblank, hbegins⟩ := h.exists_skipBlank hlead rest
    rw [hmeaning, readText, hblank]
    split
    · contradiction
    · rename_i hquote
      exact absurd (hbegins.string (Piece.char.inj (List.cons.inj hquote).1)) hstring
    · rfl

/-! ## 3. Lists -/

/-- The items that a text goes on with, each behind a step that finds it, up to the bracket that
closes their list. -/
inductive HasItems (rest : List Piece) : Bool → List Piece → List Json → Prop
  | close {first : Bool} {text : List Piece}
      (hstep : readListStep first text = .ok (false, .char ']' :: rest)) :
      HasItems rest first text []
  | item {first : Bool} {text after : List Piece} {written : List Char} {item : Json}
      {items : List Json} (hstep : readListStep first text = .ok (true, ofChars written ++ after))
      (hitem : Denotes written item) (hafter : Follows after)
      (hmore : HasItems rest false after items) : HasItems rest first text (item :: items)

theorem DenotesItems.hasItems {more : List Char} {items : List Json} (h : DenotesItems more items)
    (rest : List Piece) : HasItems rest false (ofChars more ++ .char ']' :: rest) items := by
  induction items generalizing more with
  | nil =>
    cases h with
    | nil hgap => exact .close (readListStep_close false hgap.allSpace rest)
  | cons item items ih =>
    cases h with
    | @cons gap lead text more _ _ hgap hlead hitem hmore =>
      obtain ⟨c, tail, rfl, hbegins⟩ := hitem.exists_begins
      have hstep := readListStep_comma hbegins.space hbegins.listEnd hgap.allSpace hlead.allSpace
        (ofChars tail ++ (ofChars more ++ .char ']' :: rest))
      refine .item ?_ hitem (hmore.follows rest) (ih hmore)
      simp only [ofChars_append, ofChars_cons, List.append_assoc, List.cons_append] at hstep ⊢
      exact hstep

theorem DenotesItems.length_le {more : List Char} {items : List Json}
    (h : DenotesItems more items) : items.length ≤ more.length := by
  induction items generalizing more with
  | nil => exact Nat.zero_le _
  | cons item items ih =>
    cases h with
    | cons _ _ _ hmore =>
      have := ih hmore
      simp only [List.length_append, List.length_cons]
      omega

theorem Denotes.exists_items {text : List Char} {items : List Json}
    (h : Denotes text (.array items)) :
    ∃ body, text = '[' :: body ∧ items.length ≤ body.length ∧
      ∀ rest, HasItems rest true (ofChars body ++ rest) items := by
  cases h with
  | @emptyArray gap hgap =>
    refine ⟨_, rfl, Nat.zero_le _, fun rest => .close ?_⟩
    rw [ofChars_append, List.append_assoc]
    exact readListStep_close true hgap.allSpace rest
  | @array lead text more item items hlead hitem hmore =>
    refine ⟨_, rfl, ?_, fun rest => ?_⟩
    · have hlength := hmore.length_le
      simp only [List.length_append, List.length_cons]
      omega
    · obtain ⟨c, tail, rfl, hbegins⟩ := hitem.exists_begins
      have hstep := readListStep_first hbegins.space hbegins.listEnd hlead.allSpace
        (ofChars tail ++ (ofChars more ++ .char ']' :: rest))
      refine .item ?_ hitem (hmore.follows rest) (hmore.hasItems rest)
      simp only [ofChars_append, ofChars_cons, ofChars_nil, List.append_assoc, List.cons_append,
        List.nil_append] at hstep ⊢
      exact hstep

theorem toOption_within {α : Type} {opened : Opened} {content : Reader α} {text rest : List Piece}
    {x : Option α} (h : (content text).toOption = x.map (·, .char opened.closer :: rest)) :
    (within opened content text).toOption = x.map (·, rest) := by
  cases x with
  | none =>
    obtain ⟨fault, hfault⟩ := toOption_eq_none_iff.mp h
    rw [within, hfault]
    rfl
  | some a =>
    rw [within_of_eq_ok (toOption_eq_some_iff.mp h)]
    rfl

section Lists

variable {α : Type} {item : Reader α} {meaning : Json → Option α}

def list? (meaning : Json → Option α) : Json → Option (List α)
  | .array items => items.mapM meaning
  | _ => none

theorem Reads.readItems (hitem : Reads item meaning) {rest : List Piece} {first : Bool}
    {text : List Piece} {items : List Json} (h : HasItems rest first text items) {bound : Nat}
    (hbound : items.length < bound) :
    (Json.readItems item bound first text).toOption =
      (items.mapM meaning).map (·, .char ']' :: rest) := by
  induction h generalizing bound with
  | close hstep =>
    obtain ⟨bound, rfl⟩ := Nat.exists_eq_add_of_lt hbound
    rw [Json.readItems, hstep]
    rfl
  | @item first text after written document items hstep hdocument hafter _ ih =>
    obtain ⟨bound, rfl⟩ : ∃ n, bound = n + 1 := ⟨bound - 1, by omega⟩
    rw [List.length_cons] at hbound
    have hread := hitem hdocument allSpace_nil hafter
    rw [List.nil_append] at hread
    rw [Json.readItems, hstep]
    -- the first item and the rest fail together with their meanings, one after the other
    show ((item (ofChars written ++ after)) >>= fun read =>
      (Json.readItems item bound false read.2) >>= fun more =>
        pure (read.1 :: more.1, more.2)).toOption = _
    rw [toOption_bind, hread, List.mapM_cons]
    cases meaning document with
    | none => rfl
    | some a =>
      show ((Json.readItems item bound false after) >>= fun more =>
        pure (a :: more.1, more.2)).toOption = _
      rw [toOption_bind, ih (by omega)]
      cases items.mapM meaning <;> rfl

/-- A description of items carries over to lists. -/
theorem Reads.readList (hitem : Reads item meaning) : Reads (readList item) (list? meaning) := by
  intro text document h lead rest hlead _
  by_cases harray : ∃ items, document = .array items
  · obtain ⟨items, rfl⟩ := harray
    obtain ⟨body, rfl, hlength, hitems⟩ := h.exists_items
    rw [ofChars_cons, List.cons_append, readList_open hlead]
    refine toOption_within (hitem.readItems (hitems rest) ?_)
    rw [List.length_append, Piece.ofChars, List.length_map]
    omega
  · have hmeaning : list? meaning document = none := by
      cases document <;> first | rfl | exact absurd ⟨_, rfl⟩ harray
    obtain ⟨c, more, hblank, hbegins⟩ := h.exists_skipBlank hlead rest
    rw [hmeaning, Json.readList, hblank]
    split
    · contradiction
    · rename_i hbracket
      exact absurd (hbegins.array (Piece.char.inj (List.cons.inj hbracket).1)) harray
    · rfl

end Lists

/-! ## 4. Whole documents -/

theorem Reads.readDocument {α : Type} {reader : Reader α} {meaning : Json → Option α}
    (h : Reads reader meaning) {text : List Char} {document : Json}
    (hdocument : IsDocument text document) :
    (readDocument reader (ofChars text)).toOption = meaning document := by
  cases hdocument with
  | @padded lead text tail _ hlead htext htail =>
    have hfollows := follows_gap htail follows_nil
    rw [List.append_nil] at hfollows
    have hskip : skipBlank (ofChars tail) = [] := by
      rw [← List.append_nil (ofChars tail), skipBlank_append htail.allSpace]
      rfl
    rw [ofChars_append, ofChars_append, Json.readDocument, toOption_bind,
      h htext hlead.allSpace hfollows]
    cases meaning document with
    | none => rfl
    | some a =>
      dsimp only [Option.map_some, Option.bind_some]
      rw [hskip]
      rfl

end ModuleSurface.Json
