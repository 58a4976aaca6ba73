import ModuleSurface.Proofs.Json.Slots

/-!
# Unique — a text stands for at most one document

Two derivations of one text are brought into step by reading past its values: behind the same
blanks, two values with something behind each of them that may follow a value end at the same place
(`Denotes.seam`).  So they have the same parts all the way down (`Denotes.unique`).
-/

namespace ModuleSurface.Json

open Piece (ofChars)

/-! ## 1. Where values and keys end -/

theorem ofChars_inj {text text' : List Char} (h : ofChars text = ofChars text') : text = text' := by
  have hchars := congrArg Piece.toChars? h
  rwa [Piece.toChars?_ofChars, Piece.toChars?_ofChars, Option.some.injEq] at hchars

theorem Follows.left {left right : List Piece} (h : Follows (left ++ right)) : Follows left := by
  intro piece hpiece
  apply h piece
  rw [List.head?_append, hpiece]
  rfl

theorem Denotes.begins {c : Char} {more : List Char} {document : Json}
    (h : Denotes (c :: more) document) : Begins c document := by
  obtain ⟨c', more', hcons, hbegins⟩ := h.exists_begins
  rwa [(List.cons.inj hcons).1]

theorem Denotes.skipBlank {text : List Char} {document : Json} (h : Denotes text document)
    {lead : List Char} (hlead : IsGap lead) (rest : List Char) :
    Json.skipBlank (ofChars (lead ++ (text ++ rest))) = ofChars (text ++ rest) := by
  obtain ⟨c, more, rfl, hbegins⟩ := h.exists_begins
  rw [ofChars_append, skipBlank_append hlead.allSpace]
  exact skipBlank_cons hbegins.space _

/-- Two values in one text, each before something that may follow a value, are the same text. -/
theorem Denotes.seam {lead lead' text text' rest rest' : List Char} {document document' : Json}
    (h : Denotes text document) (h' : Denotes text' document') (hlead : IsGap lead)
    (hlead' : IsGap lead') (hrest : Follows (ofChars rest)) (hrest' : Follows (ofChars rest'))
    (heq : lead ++ (text ++ rest) = lead' ++ (text' ++ rest')) : text = text' ∧ rest = rest' := by
  -- reading past either value arrives at what follows it
  have hends : rest = rest' := by
    have hskip := h.skip hlead.allSpace hrest
    have hskip' := h'.skip hlead'.allSpace hrest'
    simp only [← ofChars_append] at hskip hskip'
    rw [heq, hskip', Except.ok.injEq] at hskip
    exact ofChars_inj hskip.symm
  have hblank := h.skipBlank hlead rest
  rw [heq, h'.skipBlank hlead', hends] at hblank
  exact ⟨(List.append_cancel_right (ofChars_inj hblank)).symm, hends⟩

theorem IsKey.skipBlank {key name : List Char} (h : IsKey key name) (rest : List Char) :
    ∃ written gap, Json.skipBlank (ofChars (key ++ rest)) = .char '"' :: written ∧
      readString written = .ok (name, gap) ∧ readColon gap = .ok (ofChars rest) := by
  obtain ⟨lead, written, gap, rfl, hlead, hread⟩ := h.exists_literal
  obtain ⟨hname, hcolon⟩ := hread (ofChars rest)
  refine ⟨_, _, ?_, hname, hcolon⟩
  rw [List.append_assoc, ofChars_append, skipBlank_append hlead.allSpace, List.cons_append,
    ofChars_cons, skipBlank_cons rfl, ofChars_append]

/-- Two keys in one text are the same key, and end at the same place. -/
theorem IsKey.seam {key key' name name' rest rest' : List Char} (h : IsKey key name)
    (h' : IsKey key' name') (heq : key ++ rest = key' ++ rest') : name = name' ∧ rest = rest' := by
  obtain ⟨written, gap, hblank, hname, hcolon⟩ := h.skipBlank rest
  obtain ⟨written', gap', hblank', hname', hcolon'⟩ := h'.skipBlank rest'
  rw [heq, hblank', List.cons.injEq] at hblank
  rw [← hblank.2, hname', Except.ok.injEq, Prod.mk.injEq] at hname
  rw [← hname.2, hcolon', Except.ok.injEq] at hcolon
  exact ⟨hname.1.symm, ofChars_inj hcolon.symm⟩

theorem gap_seam {gap gap' rest rest' : List Char} {c c' : Char} (hgap : IsGap gap)
    (hgap' : IsGap gap') (hc : isSpace (.char c) = false) (hc' : isSpace (.char c') = false)
    (heq : gap ++ c :: rest = gap' ++ c' :: rest') : c = c' ∧ rest = rest' := by
  have hblank := congrArg (fun text => Json.skipBlank (ofChars text)) heq
  simp only [ofChars_append, ofChars_cons, skipBlank_append hgap.allSpace,
    skipBlank_append hgap'.allSpace, skipBlank_cons hc, skipBlank_cons hc'] at hblank
  obtain ⟨hhead, htail⟩ := List.cons.inj hblank
  exact ⟨Piece.char.inj hhead, ofChars_inj htail⟩

/-! ## 2. Scalars -/

theorem Spells.unique {content content' written : List Char} (h : Spells content written)
    (h' : Spells content' written) : content = content' := by
  have hread := readString_spells h []
  rw [readString_spells h' [], Except.ok.injEq, Prod.mk.injEq] at hread
  exact hread.1.symm

theorem IsNumeral.head {c : Char} {more : List Char} (h : IsNumeral (c :: more)) :
    IsDigit c ∨ c = '-' := by
  obtain ⟨sign, first, whole, fraction, exponent, heq, hsign, hfirst, -⟩ := h.cases_start
  rcases hsign with rfl | rfl
  · rw [(List.cons.inj heq).1]
    exact .inl hfirst
  · exact .inr (List.cons.inj heq).1

theorem Denotes.eq_numeral {digits : List Char} {document : Json} (h : Denotes digits document)
    (hdigits : IsNumeral digits) : document = .numeral digits := by
  cases h with
  | numeral _ => rfl
  -- whatever else the text would be, it begins as no number does
  | _ => exact absurd hdigits.head (by decide)

def words : List (List Char × Json) :=
  [(['n', 'u', 'l', 'l'], .null), (['t', 'r', 'u', 'e'], .boolean true),
    (['f', 'a', 'l', 's', 'e'], .boolean false)]

theorem Denotes.mem_words {c : Char} {more : List Char} {document : Json}
    (h : Denotes (c :: more) document) (hopening : c ∉ ['"', '[', '{'])
    (hnumber : ¬ (IsDigit c ∨ c = '-')) : (c :: more, document) ∈ words := by
  generalize htext : c :: more = text at h
  cases h with
  | null | yes | no => simp [words]
  | numeral hdigits =>
    rw [← htext] at hdigits
    exact absurd hdigits.head hnumber
  | _ =>
    rw [(List.cons.inj htext).1] at hopening
    exact absurd (by decide) hopening

/-! ## 3. Whole documents -/

theorem DenotesItems.follows_close {more : List Char} {items : List Json}
    (h : DenotesItems more items) : Follows (ofChars (more ++ [']'])) := by
  rw [ofChars_append]
  exact h.follows []

theorem DenotesMembers.follows_close {more : List Char} {members : List (List Char × Json)}
    (h : DenotesMembers more members) : Follows (ofChars (more ++ ['}'])) := by
  rw [ofChars_append]
  exact h.follows []

theorem Denotes.not_close {gap lead text rest : List Char} {document : Json} (hgap : IsGap gap)
    (hlead : IsGap lead) (h : Denotes text document) : gap ++ [']'] ≠ lead ++ (text ++ rest) := by
  obtain ⟨c, more, rfl, hbegins⟩ := h.exists_begins
  intro heq
  exact hbegins.listEnd (gap_seam hgap hlead rfl hbegins.space heq).1.symm

theorem IsKey.not_close {gap key name rest : List Char} (hgap : IsGap gap) (h : IsKey key name) :
    gap ++ ['}'] ≠ key ++ rest := by
  cases h with
  | literal hlead _ _ =>
    intro heq
    rw [List.append_assoc] at heq
    exact absurd (gap_seam hgap hlead rfl rfl heq).1 (by decide)

theorem IsGap.not_comma {gap gap' rest : List Char} (hgap : IsGap gap) :
    gap ≠ gap' ++ ',' :: rest := by
  rintro rfl
  exact absurd (hgap ',' (by simp)) (by decide)

-- The induction is on the first derivation.  Where a value or a key comes next, the seam shows that
-- the second derivation has the same text there, so that both go on with the same rest.
mutual

theorem Denotes.unique {text : List Char} {document document' : Json} (h : Denotes text document)
    (h' : Denotes text document') : document = document' := by
  cases h with
  | null | yes | no => simpa [words, eq_comm] using h'.mem_words (by decide) (by decide)
  | numeral hdigits => exact (h'.eq_numeral hdigits).symm
  | @string content written hcontent =>
    obtain ⟨content', rfl⟩ := h'.begins.string rfl
    generalize htext : '"' :: (written ++ ['"']) = text at h'
    cases h' with
    | string hcontent' =>
      have hwritten := List.append_cancel_right (List.cons.inj htext).2
      rw [hwritten] at hcontent
      rw [hcontent.unique hcontent']
  | @emptyArray gap hgap =>
    obtain ⟨items, rfl⟩ := h'.begins.array rfl
    generalize htext : '[' :: (gap ++ [']']) = text at h'
    cases h' with
    | emptyArray _ => rfl
    -- the bracket would be closed where an item begins
    | array hlead hitem _ => exact absurd (List.cons.inj htext).2 (hitem.not_close hgap hlead)
  | @array lead text more item items hlead hitem hmore =>
    obtain ⟨items', rfl⟩ := h'.begins.array rfl
    generalize htext : '[' :: (lead ++ (text ++ (more ++ [']']))) = whole at h'
    cases h' with
    | emptyArray hgap => exact absurd (List.cons.inj htext).2.symm (hitem.not_close hgap hlead)
    | array hlead' hitem' hmore' =>
      obtain ⟨rfl, hrest⟩ := hitem.seam hitem' hlead hlead' hmore.follows_close
        hmore'.follows_close (List.cons.inj htext).2
      obtain rfl := List.append_cancel_right hrest
      rw [hitem.unique hitem', hmore.unique hmore']
  | @emptyObject gap hgap =>
    obtain ⟨members, rfl⟩ := h'.begins.object rfl
    generalize htext : '{' :: (gap ++ ['}']) = text at h'
    cases h' with
    | emptyObject _ => rfl
    | object hkey _ _ _ => exact absurd (List.cons.inj htext).2 (hkey.not_close hgap)
  | @object key name lead text more value members hkey hlead hvalue hmore =>
    obtain ⟨members', rfl⟩ := h'.begins.object rfl
    generalize htext : '{' :: (key ++ (lead ++ (text ++ (more ++ ['}'])))) = whole at h'
    cases h' with
    | emptyObject hgap => exact absurd (List.cons.inj htext).2.symm (hkey.not_close hgap)
    | object hkey' hlead' hvalue' hmore' =>
      obtain ⟨rfl, hbehind⟩ := hkey.seam hkey' (List.cons.inj htext).2
      obtain ⟨rfl, hrest⟩ := hvalue.seam hvalue' hlead hlead' hmore.follows_close
        hmore'.follows_close hbehind
      obtain rfl := List.append_cancel_right hrest
      rw [hvalue.unique hvalue', hmore.unique hmore']

theorem DenotesItems.unique {more : List Char} {items items' : List Json}
    (h : DenotesItems more items) (h' : DenotesItems more items') : items = items' := by
  generalize htext : more = text at h'
  cases h with
  | nil hgap =>
    cases h' with
    | nil _ => rfl
    | cons _ _ _ _ => exact absurd htext hgap.not_comma
  | cons hgap hlead hitem hmore =>
    cases h' with
    | nil hgap' => exact absurd htext.symm hgap'.not_comma
    | cons hgap' hlead' hitem' hmore' =>
      obtain ⟨-, hbehind⟩ := gap_seam hgap hgap' rfl rfl htext
      -- what follows an item may follow it whatever the list is closed with
      obtain ⟨rfl, rfl⟩ := hitem.seam hitem' hlead hlead' (hmore.follows []).left
        (hmore'.follows []).left hbehind
      rw [hitem.unique hitem', hmore.unique hmore']

theorem DenotesMembers.unique {more : List Char} {members members' : List (List Char × Json)}
    (h : DenotesMembers more members) (h' : DenotesMembers more members') :
    members = members' := by
  generalize htext : more = text at h'
  cases h with
  | nil hgap =>
    cases h' with
    | nil _ => rfl
    | cons _ _ _ _ _ => exact absurd htext hgap.not_comma
  | cons hgap hkey hlead hvalue hmore =>
    cases h' with
    | nil hgap' => exact absurd htext.symm hgap'.not_comma
    | cons hgap' hkey' hlead' hvalue' hmore' =>
      obtain ⟨-, hkeys⟩ := gap_seam hgap hgap' rfl rfl htext
      obtain ⟨rfl, hbehind⟩ := hkey.seam hkey' hkeys
      obtain ⟨rfl, rfl⟩ := hvalue.seam hvalue' hlead hlead' (hmore.follows []).left
        (hmore'.follows []).left hbehind
      rw [hvalue.unique hvalue', hmore.unique hmore']

end

/-- A whole text stands for at most one document. -/
theorem IsDocument.unique {text : List Char} {document document' : Json}
    (h : IsDocument text document) (h' : IsDocument text document') : document = document' := by
  generalize htext : text = whole at h'
  cases h with
  | padded hlead hdocument htail =>
    cases h' with
    | padded hlead' hdocument' htail' =>
      have hfollows := fun {tail : List Char} (h : IsGap tail) => (follows_gap h follows_nil).left
      obtain ⟨rfl, -⟩ := hdocument.seam hdocument' hlead hlead' (hfollows htail)
        (hfollows htail') htext
      exact hdocument.unique hdocument'

end ModuleSurface.Json
