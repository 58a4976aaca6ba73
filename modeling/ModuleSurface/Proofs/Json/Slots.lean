import ModuleSurface.Proofs.Json.Reads

/-!
# Slots — what readers make of records

A slot is a field of a record whose value is read for itself, together with what its reader makes
of documents.  A record that consists of slots is filled from the items of a list in order
(`fillItems`), or from the members of an object by their keys (`fillMembers`); these are what its
reader makes of documents (`reads_record`).
-/

namespace ModuleSurface.Json

open Piece (ofChars)

/-! ## 1. Slots -/

/-- A field of a record with a reader for its value, and what that makes of documents. -/
structure Slot (Draft : Type) where
  Value : Type
  key : String
  get : Draft → Option Value
  set : Draft → Value → Draft
  reader : Reader Value
  meaning : Json → Option Value
  reads : Reads reader meaning
  get_set : ∀ draft value, get (set draft value) = some value

namespace Slot

variable {Draft : Type}

def field (slot : Slot Draft) : Field Draft where
  key := slot.key
  isGiven draft := (slot.get draft).isSome
  read draft text := (slot.reader text).map fun (value, rest) => (slot.set draft value, rest)

/-- A draft with the value of a slot, if a document stands for one. -/
def fill? (slot : Slot Draft) (draft : Draft) (document : Json) : Option Draft :=
  (slot.meaning document).map (slot.set draft)

theorem reads_field (slot : Slot Draft) (draft : Draft) :
    Reads (slot.field.read draft) (slot.fill? draft) := by
  intro text document h lead rest hlead hrest
  show ((slot.reader _).map _).toOption = _
  rw [toOption_map, slot.reads h hlead hrest, fill?]
  cases slot.meaning document <;> rfl

theorem find?_field (slots : List (Slot Draft)) (name : List Char) :
    (slots.map field).find? (·.key.toList == name) =
      (slots.find? (·.key.toList == name)).map field := by
  rw [List.find?_map]
  rfl

end Slot

variable {Draft α : Type}

def fillItems (draft : Draft) : List (Slot Draft) → List Json → Option Draft
  | [], [] => some draft
  | slot :: slots, item :: items => (slot.fill? draft item).bind (fillItems · slots items)
  | _, _ => none

/-- A draft filled from the members of an object; members that are no slots do not matter. -/
def fillMembers (slots : List (Slot Draft)) (draft : Draft) :
    List (List Char × Json) → Option Draft
  | [] => some draft
  | (name, value) :: members =>
      match slots.find? (·.key.toList == name) with
      | none => fillMembers slots draft members
      | some slot =>
          if (slot.get draft).isSome then none
          else (slot.fill? draft value).bind (fillMembers slots · members)

def Schema.record? (schema : Schema Draft α) (slots : List (Slot Draft)) : Json → Option α
  | .array items =>
      (fillItems schema.empty slots items).bind fun draft => (schema.finish draft).toOption
  | .object members =>
      (fillMembers slots schema.empty members).bind fun draft => (schema.finish draft).toOption
  | _ => none

/-! ## 2. Lists as records -/

theorem closeBracket_list {text rest : List Piece} {items : List Json}
    (h : HasItems rest false text items) :
    (closeBracket .list text).toOption = if items = [] then some rest else none := by
  cases h with
  | close hstep =>
    have hskip : skipBlank text = .char ']' :: rest := by
      unfold readListStep at hstep
      split at hstep
      · contradiction
      · rename_i hskip
        rw [hskip]
        injection hstep with hstep
        exact (Prod.mk.inj hstep).2
      · split at hstep
        · contradiction
        · split at hstep
          · split at hstep <;> simp at hstep
          · contradiction
    rw [closeBracket, hskip]
    rfl
  | item hstep _ _ _ =>
    -- the comma of a further item stands where the bracket should
    rw [if_neg (List.cons_ne_nil _ _)]
    unfold readListStep at hstep
    unfold closeBracket
    split at hstep
    · contradiction
    · simp at hstep
    · rename_i piece more hclose hskip
      rw [if_neg Bool.false_ne_true] at hstep
      have hcomma : piece = .char ',' := by
        by_contra hne
        rw [if_neg hne] at hstep
        contradiction
      have hne : piece ≠ .char Opened.list.closer := hclose
      rw [hskip]
      dsimp only
      rw [if_neg hne, if_pos hcomma]
      split <;> rfl

/-- The items of a list fill a draft if each slot gets one and the list then closes. -/
theorem toOption_readFields (schema : Schema Draft α) {slots : List (Slot Draft)}
    {rest text : List Piece} {count : Nat} {draft : Draft} {items : List Json}
    (h : HasItems rest (count == 0) text items) (hsome : slots ≠ [] ∨ count ≠ 0) :
    ((readFields schema count draft (slots.map Slot.field) text).toOption.bind fun read =>
      (closeBracket .list read.2).toOption.map (read.1, ·)) =
      (fillItems draft slots items).map (·, rest) := by
  induction slots generalizing count text draft items with
  | nil =>
    -- every slot has got its item, and only the bracket may follow
    have hfirst : (count == 0) = false := by simpa using hsome
    rw [hfirst] at h
    show (closeBracket .list text).toOption.map (draft, ·) = _
    rw [closeBracket_list h]
    cases items <;> rfl
  | cons slot slots ih =>
    cases h with
    | close hstep =>
      rw [List.map_cons, readFields, hstep]
      rfl
    | @item _ _ after written item items hstep hitem hafter hmore =>
      have hread := slot.reads_field draft hitem allSpace_nil hafter
      rw [List.nil_append] at hread
      rw [List.map_cons, readFields, hstep]
      show (((slot.field.read draft (ofChars written ++ after)) >>= fun read =>
        readFields schema (count + 1) read.1 (slots.map Slot.field) read.2).toOption.bind _) = _
      rw [toOption_bind, hread, fillItems]
      cases slot.fill? draft item with
      | none => rfl
      | some next => exact ih hmore (.inr (Nat.succ_ne_zero count))

theorem toOption_finishDraft (schema : Schema Draft α) (draft : Draft) (text : List Piece) :
    (finishDraft schema draft text).toOption = (schema.finish draft).toOption.map (·, text) := by
  unfold finishDraft
  split <;> rename_i hfinish <;> rw [hfinish] <;> rfl

theorem toOption_within_bind (opened : Opened) (content : Reader α) (text : List Piece) :
    (within opened content text).toOption = (content text).toOption.bind fun read =>
      (closeBracket opened read.2).toOption.map (read.1, ·) := by
  unfold within
  split <;> rename_i hcontent <;> rw [hcontent]
  · rfl
  · exact toOption_map _ _

/-! ## 3. Objects as records -/

/-- The members that a text goes on with, each behind a step that finds its key, up to the bracket
that closes their object. -/
inductive HasMembers (rest : List Piece) : Bool → List Piece → List (List Char × Json) → Prop
  | close {first : Bool} {text : List Piece}
      (hstep : readMemberStep first text = .ok (.char '}' :: rest)) : HasMembers rest first text []
  | member {first : Bool} {text key colon lead after : List Piece} {name written : List Char}
      {value : Json} {members : List (List Char × Json)}
      (hstep : readMemberStep first text = .ok (.char '"' :: key))
      (hname : readString key = .ok (name, colon))
      (hcolon : readColon colon = .ok (lead ++ (ofChars written ++ after)))
      (hlead : AllSpace lead) (hvalue : Denotes written value) (hafter : Follows after)
      (hmore : HasMembers rest false after members) :
      HasMembers rest first text ((name, value) :: members)

theorem IsKey.exists_literal {key name : List Char} (h : IsKey key name) :
    ∃ lead written gap, key = lead ++ '"' :: (written ++ '"' :: (gap ++ [':'])) ∧ IsGap lead ∧
      ∀ rest, readString (ofChars (written ++ '"' :: (gap ++ [':'])) ++ rest) =
          .ok (name, ofChars gap ++ .char ':' :: rest) ∧
        readColon (ofChars gap ++ .char ':' :: rest) = .ok rest := by
  cases h with
  | @literal lead written gap _ hlead hcontent hgap =>
    refine ⟨lead, written, gap, rfl, hlead, fun rest => ⟨?_, ?_⟩⟩
    · simp only [ofChars_append, ofChars_cons, ofChars_nil, List.append_assoc, List.cons_append,
        List.nil_append]
      exact readString_spells hcontent _
    · rw [readColon, skipBlank_append hgap.allSpace, skipBlank_cons rfl]
      rfl

theorem DenotesMembers.hasMembers {more : List Char} {members : List (List Char × Json)}
    (h : DenotesMembers more members) (rest : List Piece) :
    HasMembers rest false (ofChars more ++ .char '}' :: rest) members := by
  induction members generalizing more with
  | nil =>
    cases h with
    | nil hgap => exact .close (readMemberStep_close false hgap.allSpace rest)
  | cons member members ih =>
    cases h with
    | @cons gap key name lead text more _ _ hgap hkey hlead hvalue hmore =>
      obtain ⟨blank, written, space, rfl, hblank, hread⟩ := hkey.exists_literal
      obtain ⟨hname, hcolon⟩ :=
        hread (ofChars lead ++ (ofChars text ++ (ofChars more ++ .char '}' :: rest)))
      have hstep := readMemberStep_comma hgap.allSpace hblank.allSpace
        (ofChars (written ++ '"' :: (space ++ [':'])) ++
          (ofChars lead ++ (ofChars text ++ (ofChars more ++ .char '}' :: rest))))
      refine .member ?_ hname hcolon hlead.allSpace hvalue (hmore.follows rest) (ih hmore)
      simp only [ofChars_append, ofChars_cons, List.append_assoc, List.cons_append] at hstep ⊢
      exact hstep

theorem DenotesMembers.length_le {more : List Char} {members : List (List Char × Json)}
    (h : DenotesMembers more members) : members.length ≤ more.length := by
  induction members generalizing more with
  | nil => exact Nat.zero_le _
  | cons member members ih =>
    cases h with
    | cons _ _ _ _ hmore =>
      have := ih hmore
      simp only [List.length_append, List.length_cons]
      omega

theorem Denotes.exists_members {text : List Char} {members : List (List Char × Json)}
    (h : Denotes text (.object members)) :
    ∃ body, text = '{' :: body ∧ members.length ≤ body.length ∧
      ∀ rest, HasMembers rest true (ofChars body ++ rest) members := by
  cases h with
  | @emptyObject gap hgap =>
    refine ⟨_, rfl, Nat.zero_le _, fun rest => .close ?_⟩
    rw [ofChars_append, List.append_assoc]
    exact readMemberStep_close true hgap.allSpace rest
  | @object key name lead text more _ members hkey hlead hvalue hmore =>
    refine ⟨_, rfl, ?_, fun rest => ?_⟩
    · have hlength := hmore.length_le
      simp only [List.length_append, List.length_cons]
      omega
    · obtain ⟨blank, written, space, rfl, hblank, hread⟩ := hkey.exists_literal
      obtain ⟨hname, hcolon⟩ :=
        hread (ofChars lead ++ (ofChars text ++ (ofChars more ++ .char '}' :: rest)))
      have hstep := readMemberStep_first hblank.allSpace
        (ofChars (written ++ '"' :: (space ++ [':'])) ++
          (ofChars lead ++ (ofChars text ++ (ofChars more ++ .char '}' :: rest))))
      refine .member ?_ hname hcolon hlead.allSpace hvalue (hmore.follows rest)
        (hmore.hasMembers rest)
      simp only [ofChars_append, ofChars_cons, ofChars_nil, List.append_assoc, List.cons_append,
        List.nil_append] at hstep ⊢
      exact hstep

theorem toOption_readMember {schema : Schema Draft α} {slots : List (Slot Draft)}
    (hfields : schema.fields = slots.map Slot.field) (draft : Draft)
    {key colon lead after : List Piece} {name written : List Char} {value : Json}
    (hname : readString key = .ok (name, colon))
    (hcolon : readColon colon = .ok (lead ++ (ofChars written ++ after))) (hlead : AllSpace lead)
    (hvalue : Denotes written value) (hafter : Follows after) :
    (readMember schema draft (.char '"' :: key)).toOption =
      (fillMembers slots draft [(name, value)]).map (·, after) := by
  have hfind := Slot.find?_field slots name
  rw [← hfields] at hfind
  rw [fillMembers]
  cases hslot : slots.find? (·.key.toList == name) with
  | none =>
    -- no slot has the key: the value is read past
    rw [hslot] at hfind
    simp only [readMember, hname, bind, Except.bind, hfind, Option.map_none, hcolon,
      hvalue.skip hlead hafter]
    rfl
  | some slot =>
    rw [hslot] at hfind
    simp only [readMember, hname, bind, Except.bind, hfind, Option.map_some]
    by_cases hgiven : (slot.get draft).isSome
    · have hfield : slot.field.isGiven draft = true := hgiven
      rw [if_pos hfield, if_pos hgiven]
      rfl
    · have hfield : ¬slot.field.isGiven draft = true := hgiven
      rw [if_neg hfield, if_neg hgiven]
      simp only [hcolon, slot.reads_field draft hvalue hlead hafter]
      cases slot.fill? draft value <;> rfl

theorem fillMembers_cons (slots : List (Slot Draft)) (draft : Draft) (member : List Char × Json)
    (members : List (List Char × Json)) :
    fillMembers slots draft (member :: members) =
      (fillMembers slots draft [member]).bind (fillMembers slots · members) := by
  obtain ⟨name, value⟩ := member
  rw [fillMembers, fillMembers]
  split
  · rfl
  · split
    · rfl
    · rename_i slot _ _
      cases slot.fill? draft value <;> rfl

theorem toOption_readMembers {schema : Schema Draft α} {slots : List (Slot Draft)}
    (hfields : schema.fields = slots.map Slot.field) {rest : List Piece} {first : Bool}
    {text : List Piece} {members : List (List Char × Json)} (h : HasMembers rest first text members)
    (draft : Draft) {bound : Nat} (hbound : members.length < bound) :
    (readMembers schema bound first draft text).toOption =
      (fillMembers slots draft members).map (·, .char '}' :: rest) := by
  induction h generalizing draft bound with
  | close hstep =>
    obtain ⟨bound, rfl⟩ := Nat.exists_eq_add_of_lt hbound
    rw [readMembers, hstep]
    rfl
  | @member first text key colon lead after name written value members hstep hname hcolon hlead
      hvalue hafter _ ih =>
    obtain ⟨bound, rfl⟩ : ∃ n, bound = n + 1 := ⟨bound - 1, by omega⟩
    rw [List.length_cons] at hbound
    have hmember := toOption_readMember hfields draft hname hcolon hlead hvalue hafter
    rw [readMembers, hstep, fillMembers_cons]
    show ((readMember schema draft (.char '"' :: key)) >>= fun read =>
      readMembers schema bound false read.1 read.2).toOption = _
    rw [toOption_bind, hmember]
    cases fillMembers slots draft [(name, value)] with
    | none => rfl
    | some next => exact ih next (by omega)

/-! ## 4. Records -/

theorem Schema.read_list {schema : Schema Draft α} {lead : List Piece} (hlead : AllSpace lead)
    (text : List Piece) :
    schema.read (lead ++ .char '[' :: text) =
      within .list (fun text' =>
        readFields schema 0 schema.empty schema.fields text' >>= fun read =>
          finishDraft schema read.1 read.2) text := by
  rw [Schema.read, skipBlank_append hlead, skipBlank_cons rfl]
  rfl

/-- A record of slots is read as what its documents make of it. -/
theorem reads_record {schema : Schema Draft α} {slots : List (Slot Draft)}
    (hfields : schema.fields = slots.map Slot.field) (hslots : slots ≠ []) :
    Reads schema.read (schema.record? slots) := by
  intro text document h lead rest hlead _
  by_cases harray : ∃ items, document = .array items
  · obtain ⟨items, rfl⟩ := harray
    obtain ⟨body, rfl, -, hitems⟩ := h.exists_items
    have hfirst : HasItems rest (0 == 0) (ofChars body ++ rest) items := hitems rest
    -- whether the draft is complete does not depend on how its list closes
    have hswap : ∀ read : Draft × List Piece,
        ((finishDraft schema read.1 read.2).toOption.bind fun done =>
          (closeBracket .list done.2).toOption.map (done.1, ·)) =
        ((closeBracket .list read.2).toOption.map (read.1, ·)).bind fun closed =>
          (schema.finish closed.1).toOption.map (·, closed.2) := by
      intro read
      rw [toOption_finishDraft]
      cases hclose : (closeBracket .list read.2).toOption <;>
        cases hfinish : (schema.finish read.1).toOption <;> simp [hclose, hfinish]
    rw [ofChars_cons, List.cons_append, Schema.read_list hlead, toOption_within_bind, toOption_bind,
      hfields, Option.bind_assoc, funext hswap, ← Option.bind_assoc,
      toOption_readFields schema hfirst (.inl hslots), Schema.record?]
    cases fillItems schema.empty slots items with
    | none => rfl
    | some draft => rfl
  · by_cases hobject : ∃ members, document = .object members
    · obtain ⟨members, rfl⟩ := hobject
      obtain ⟨body, rfl, hlength, hmembers⟩ := h.exists_members
      rw [ofChars_cons, List.cons_append, Schema.read_open hlead]
      refine toOption_within ?_
      rw [toOption_bind, toOption_readMembers hfields (hmembers rest)]
      · rw [Schema.record?]
        cases fillMembers slots schema.empty members with
        | none => rfl
        | some draft => exact toOption_finishDraft schema draft _
      · rw [List.length_append, Piece.ofChars, List.length_map]
        omega
    · have hmeaning : schema.record? slots document = none := by
        cases document <;>
          first | rfl | exact absurd ⟨_, rfl⟩ harray | exact absurd ⟨_, rfl⟩ hobject
      obtain ⟨c, more, hblank, hbegins⟩ := h.exists_skipBlank hlead rest
      rw [hmeaning, Schema.read, hblank]
      split
      · contradiction
      · rename_i hbracket
        exact absurd (hbegins.array (Piece.char.inj (List.cons.inj hbracket).1)) harray
      · rename_i hbracket
        exact absurd (hbegins.object (Piece.char.inj (List.cons.inj hbracket).1)) hobject
      · rfl

end ModuleSurface.Json
