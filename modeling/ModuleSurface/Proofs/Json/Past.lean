import ModuleSurface.Proofs.Json.Token

/-!
# Past — a value that nobody wants is read past to its end

Whatever value of the grammar stands at the start of a text, and however many brackets are open
around it, reading past the value arrives at what follows it (`Denotes.skip`).  The induction is
on how the text of the value is derived: behind each item, reading goes on with the rest of the
innermost open bracket.
-/

namespace ModuleSurface.Json

open Piece (ofChars)

/-! ## 1. Where values and keys begin -/

/-- What the first character of a value tells: it neither stands between tokens nor closes a
bracket nor separates items, and strings, lists and objects have characters of their own. -/
structure Begins (c : Char) (document : Json) : Prop where
  space : isSpace (.char c) = false
  listEnd : c ≠ ']'
  objectEnd : c ≠ '}'
  comma : c ≠ ','
  string : c = '"' → ∃ content, document = .string content
  array : c = '[' → ∃ items, document = .array items
  object : c = '{' → ∃ members, document = .object members

theorem IsDigit.begins {c : Char} (h : IsDigit c) (document : Json) : Begins c document := by
  have hne : ∀ d, ¬IsDigit d → c ≠ d := fun d => h.ne
  refine ⟨?_, hne _ (by decide), hne _ (by decide), hne _ (by decide),
    fun hc => absurd hc (hne _ (by decide)), fun hc => absurd hc (hne _ (by decide)),
    fun hc => absurd hc (hne _ (by decide))⟩
  have hspace := hne ' ' (by decide)
  have hline := hne '\n' (by decide)
  have htab := hne '\t' (by decide)
  have hreturn := hne '\r' (by decide)
  simp [isSpace, hspace, hline, htab, hreturn]

theorem IsNumeral.cases_start {digits : List Char} (h : IsNumeral digits) :
    ∃ sign first whole fraction exponent,
      digits = sign ++ (first :: whole ++ (fraction ++ exponent)) ∧
      (sign = [] ∨ sign = ['-']) ∧ IsDigit first ∧ IsWhole (first :: whole) ∧
      IsFraction fraction ∧ IsExponent exponent := by
  cases h with
  | @parts sign whole fraction exponent hsign hwhole hfraction hexponent =>
    cases hwhole with
    | zero => exact ⟨sign, '0', [], fraction, exponent, rfl, hsign, by decide, .zero,
        hfraction, hexponent⟩
    | @digits first more hfirst hzero hmore =>
      exact ⟨sign, first, more, fraction, exponent, rfl, hsign, hfirst, .digits hfirst hzero hmore,
        hfraction, hexponent⟩

theorem Denotes.exists_begins {text : List Char} {document : Json} (h : Denotes text document) :
    ∃ c more, text = c :: more ∧ Begins c document := by
  cases h with
  | numeral hdigits =>
    obtain ⟨sign, first, whole, fraction, exponent, rfl, hsign, hfirst, -⟩ := hdigits.cases_start
    rcases hsign with rfl | rfl
    · exact ⟨first, _, rfl, hfirst.begins _⟩
    · exact ⟨'-', _, rfl, by constructor <;> simp [isSpace]⟩
  | _ => exact ⟨_, _, rfl, by constructor <;> simp [isSpace]⟩

theorem DenotesItems.follows {more : List Char} {items : List Json} (h : DenotesItems more items)
    (rest : List Piece) : Follows (ofChars more ++ .char ']' :: rest) := by
  cases h with
  | nil hgap => exact follows_gap hgap (follows_cons (by decide) rest)
  | cons hgap _ _ _ =>
    rw [ofChars_append, List.append_assoc]
    exact follows_gap hgap (follows_cons (by decide) _)

theorem DenotesMembers.follows {more : List Char} {members : List (List Char × Json)}
    (h : DenotesMembers more members) (rest : List Piece) :
    Follows (ofChars more ++ .char '}' :: rest) := by
  cases h with
  | nil hgap => exact follows_gap hgap (follows_cons (by decide) rest)
  | cons hgap _ _ _ _ =>
    rw [ofChars_append, List.append_assoc]
    exact follows_gap hgap (follows_cons (by decide) _)

/-! ## 2. Single tokens -/

theorem skipKey_isKey {key name : List Char} (h : IsKey key name) (rest : List Piece) :
    skipKey (ofChars key ++ rest) = .ok rest := by
  cases h with
  | @literal lead written gap _ hlead hcontent hgap =>
    have htext : ofChars (lead ++ '"' :: (written ++ '"' :: (gap ++ [':']))) ++ rest =
        ofChars lead ++ .char '"' :: (ofChars written ++ .char '"' :: (ofChars gap ++
          .char ':' :: rest)) := by
      simp only [ofChars_append, ofChars_cons, ofChars_nil, List.append_assoc, List.cons_append,
        List.nil_append]
    have hcolon : skipBlank (ofChars gap ++ .char ':' :: rest) = .char ':' :: rest := by
      rw [skipBlank_append hgap.allSpace, skipBlank_cons rfl]
    rw [htext, skipKey, skipBlank_append hlead.allSpace, skipBlank_cons rfl]
    simp only [skipString_spells hcontent, bind, Except.bind, hcolon]
    rfl

theorem skipScalar_numeral {digits : List Char} (h : IsNumeral digits) {rest : List Piece}
    (hrest : Follows rest) : skipScalar (ofChars digits ++ rest) = .ok rest := by
  obtain ⟨sign, first, whole, fraction, exponent, rfl, hsign, hfirst, hwhole, hfraction,
    hexponent⟩ := h.cases_start
  obtain ⟨number, hread⟩ := exists_readNumberText hwhole hfraction hexponent hrest
  rcases hsign with rfl | rfl
  · obtain ⟨n, hn, -⟩ := exists_digitValue hfirst
    rw [List.nil_append]
    rw [List.cons_append, ofChars_cons, List.cons_append] at hread ⊢
    rw [skipScalar, hn]
    · simp only [Option.isSome_some, if_true, hread]
      rfl
    -- a digit is none of the characters that the other scalars begin with
    all_goals
      intro hpiece
      exact hfirst.ne (by decide) (Piece.char.inj hpiece)
  · show skipScalar (.char '-' :: (ofChars (first :: whole ++ (fraction ++ exponent)) ++ rest)) = _
    rw [skipScalar, hread]
    rfl

/-! ## 3. One step inside the open brackets -/

/-- Reading past a value, without the reasons why it ends. -/
theorem skipValue_eq (opened : List Opened) (text : List Piece) :
    skipValue opened text =
      match skipBlank text with
      | [] => .error (.ended .value)
      | piece :: rest =>
          match opening? piece with
          | none => (skipScalar (piece :: rest)).bind (skipRest opened)
          | some bracket =>
              match skipBlank rest with
              | [] => .error (.ended bracket.construct)
              | next :: after =>
                  if next = .char bracket.closer then skipRest opened after
                  else (skipToValue bracket (next :: after)).bind
                    (skipValue (bracket :: opened)) := by
  rw [skipValue]
  split
  · rename_i hblank
    rw [hblank]
  · rename_i piece rest hblank
    rw [hblank]
    dsimp only
    cases hopening : opening? piece with
    | none =>
      dsimp only
      split <;> rename_i hscalar <;> rw [hscalar] <;> rfl
    | some bracket =>
      dsimp only
      split
      · rename_i hnext
        simp only [hnext]
      · rename_i next after hnext
        simp only [hnext]
        split
        · rfl
        · split <;> rename_i hvalue <;> rw [hvalue] <;> rfl

/-- Reading past the rest of the open brackets, without the reasons why it ends. -/
theorem skipRest_cons (bracket : Opened) (outer : List Opened) (text : List Piece) :
    skipRest (bracket :: outer) text =
      match skipBlank text with
      | [] => .error (.ended bracket.construct)
      | next :: after =>
          if next = .char bracket.closer then skipRest outer after
          else if next = .char ',' then
            (skipToValue bracket after).bind (skipValue (bracket :: outer))
          else .error (.next bracket.expectedEnd (next :: after)) := by
  rw [skipRest]
  split
  · rename_i hblank
    rw [hblank]
  · rename_i hblank
    rw [hblank]
    dsimp only
    congr 2
    split <;> rename_i hvalue <;> rw [hvalue] <;> rfl

theorem skipRest_nil (text : List Piece) : skipRest [] text = .ok text := by
  rw [skipRest]

section Steps

variable {opened : List Opened} {bracket : Opened} {lead gap after rest : List Piece}
  {piece next : Piece}

theorem opening?_of_skipScalar (h : skipScalar (piece :: after) = .ok rest) :
    opening? piece = none := by
  unfold opening?
  split
  · exact absurd h (by simp [skipScalar, digitValue?])
  · exact absurd h (by simp [skipScalar, digitValue?])
  · rfl

theorem skipValue_scalar (hlead : AllSpace lead) (hspace : isSpace piece = false)
    (hscalar : skipScalar (piece :: after) = .ok rest) :
    skipValue opened (lead ++ piece :: after) = skipRest opened rest := by
  rw [skipValue_eq, skipBlank_append hlead, skipBlank_cons hspace]
  simp only [opening?_of_skipScalar hscalar, hscalar, Except.bind]

theorem skipValue_empty (hlead : AllSpace lead) (hspace : isSpace piece = false)
    (hopening : opening? piece = some bracket) (hgap : AllSpace gap) :
    skipValue opened (lead ++ piece :: (gap ++ .char bracket.closer :: rest)) =
      skipRest opened rest := by
  have hnext : skipBlank (gap ++ .char bracket.closer :: rest) = .char bracket.closer :: rest := by
    rw [skipBlank_append hgap, skipBlank_cons (isSpace_closer bracket)]
  rw [skipValue_eq, skipBlank_append hlead, skipBlank_cons hspace]
  simp only [hopening, hnext, if_true]

theorem skipValue_open (hlead : AllSpace lead) (hspace : isSpace piece = false)
    (hopening : opening? piece = some bracket) (hnext : skipBlank after = next :: gap)
    (hne : next ≠ .char bracket.closer) (hitem : skipToValue bracket (next :: gap) = .ok rest) :
    skipValue opened (lead ++ piece :: after) = skipValue (bracket :: opened) rest := by
  rw [skipValue_eq, skipBlank_append hlead, skipBlank_cons hspace]
  simp only [hopening, hnext, if_neg hne, hitem, Except.bind]

theorem skipRest_close (hgap : AllSpace gap) :
    skipRest (bracket :: opened) (gap ++ .char bracket.closer :: rest) = skipRest opened rest := by
  rw [skipRest_cons, skipBlank_append hgap, skipBlank_cons (isSpace_closer bracket)]
  exact if_pos rfl

theorem skipRest_comma (hgap : AllSpace gap) (hitem : skipToValue bracket after = .ok rest) :
    skipRest (bracket :: opened) (gap ++ .char ',' :: after) =
      skipValue (bracket :: opened) rest := by
  have hcomma : Piece.char ',' ≠ .char bracket.closer := by cases bracket <;> decide
  rw [skipRest_cons, skipBlank_append hgap, skipBlank_cons rfl]
  simp only [if_neg hcomma, if_true, hitem, Except.bind]

end Steps

/-! ## 4. Whole values -/

/-- Behind the blanks before it, a key is read past all the same. -/
theorem IsKey.exists_quote {key name : List Char} (h : IsKey key name) (rest : List Piece) :
    ∃ written, skipBlank (ofChars key ++ rest) = .char '"' :: written ∧
      skipKey (.char '"' :: written) = .ok rest := by
  have hskip := skipKey_isKey h rest
  cases h with
  | @literal lead written gap _ hlead hcontent hgap =>
    have hblank : skipBlank (ofChars (lead ++ '"' :: (written ++ '"' :: (gap ++ [':']))) ++ rest) =
        .char '"' :: (ofChars (written ++ '"' :: (gap ++ [':'])) ++ rest) := by
      rw [ofChars_append, List.append_assoc, skipBlank_append hlead.allSpace]
      exact skipBlank_cons rfl _
    refine ⟨_, hblank, ?_⟩
    rw [skipKey, hblank] at hskip
    rw [skipKey, skipBlank_cons rfl]
    exact hskip

-- The three go down the grammar together.  Each leaves the open brackets as it found them, so that
-- what follows is read as if nothing had been open.
mutual

theorem Denotes.skipValue {text : List Char} {document : Json} (h : Denotes text document)
    (opened : List Opened) {lead rest : List Piece} (hlead : AllSpace lead) (hrest : Follows rest) :
    Json.skipValue opened (lead ++ (ofChars text ++ rest)) = Json.skipRest opened rest := by
  cases h with
  | null => exact skipValue_scalar hlead rfl rfl
  | yes => exact skipValue_scalar hlead rfl rfl
  | no => exact skipValue_scalar hlead rfl rfl
  | numeral hdigits =>
    have hscalar := skipScalar_numeral hdigits hrest
    obtain ⟨c, more, rfl, hbegins⟩ := (Denotes.numeral hdigits).exists_begins
    exact skipValue_scalar hlead hbegins.space hscalar
  | @string _ written hcontent =>
    have hstring := skipString_spells hcontent rest
    rw [ofChars_cons, ofChars_append, List.cons_append, List.append_assoc]
    exact skipValue_scalar hlead rfl hstring
  | emptyArray hgap =>
    rw [ofChars_cons, ofChars_append, List.cons_append, List.append_assoc]
    have hopening : opening? (.char '[') = some .list := rfl
    exact skipValue_empty hlead rfl hopening hgap.allSpace
  | @array gap text more item _ hgap hitem hmore =>
    have htext : ofChars ('[' :: (gap ++ (text ++ (more ++ [']'])))) ++ rest =
        .char '[' :: (ofChars gap ++ (ofChars text ++ (ofChars more ++ .char ']' :: rest))) := by
      simp only [ofChars_append, ofChars_cons, ofChars_nil, List.append_assoc, List.cons_append,
        List.nil_append]
    have hvalue := hitem.skipValue (.list :: opened) allSpace_nil (hmore.follows rest)
    -- an item does not begin with the bracket that closes the list
    obtain ⟨c, tail, hc, hbegins⟩ := hitem.exists_begins
    have hnext : skipBlank (ofChars gap ++ (ofChars text ++ (ofChars more ++ .char ']' :: rest))) =
        ofChars text ++ (ofChars more ++ .char ']' :: rest) := by
      rw [skipBlank_append hgap.allSpace, hc]
      exact skipBlank_cons hbegins.space _
    have hne : Piece.char c ≠ .char Opened.list.closer :=
      fun h => hbegins.listEnd (Piece.char.inj h)
    rw [hc] at hnext hvalue
    rw [htext, hc, skipValue_open hlead rfl rfl hnext hne rfl, ← hmore.skipRest opened rest]
    exact hvalue
  | emptyObject hgap =>
    rw [ofChars_cons, ofChars_append, List.cons_append, List.append_assoc]
    have hopening : opening? (.char '{') = some .record := rfl
    exact skipValue_empty hlead rfl hopening hgap.allSpace
  | @object key _ gap text more _ _ hkey hgap hvalue hmore =>
    have htext : ofChars ('{' :: (key ++ (gap ++ (text ++ (more ++ ['}']))))) ++ rest =
        .char '{' :: (ofChars key ++ (ofChars gap ++ (ofChars text ++ (ofChars more ++
          .char '}' :: rest)))) := by
      simp only [ofChars_append, ofChars_cons, ofChars_nil, List.append_assoc, List.cons_append,
        List.nil_append]
    obtain ⟨written, hnext, hskip⟩ := hkey.exists_quote
      (ofChars gap ++ (ofChars text ++ (ofChars more ++ .char '}' :: rest)))
    have hne : Piece.char '"' ≠ .char Opened.record.closer := by decide
    rw [htext, skipValue_open hlead rfl rfl hnext hne hskip,
      hvalue.skipValue (.record :: opened) hgap.allSpace (hmore.follows rest)]
    exact hmore.skipRest opened rest

theorem DenotesItems.skipRest {more : List Char} {items : List Json} (h : DenotesItems more items)
    (opened : List Opened) (rest : List Piece) :
    Json.skipRest (.list :: opened) (ofChars more ++ .char ']' :: rest) =
      Json.skipRest opened rest := by
  cases h with
  | nil hgap => exact skipRest_close hgap.allSpace
  | @cons gap lead text more _ _ hgap hlead hitem hmore =>
    have htext : ofChars (gap ++ ',' :: (lead ++ (text ++ more))) ++ .char ']' :: rest =
        ofChars gap ++ .char ',' :: (ofChars lead ++ (ofChars text ++ (ofChars more ++
          .char ']' :: rest))) := by
      simp only [ofChars_append, ofChars_cons, List.append_assoc, List.cons_append]
    rw [htext, skipRest_comma hgap.allSpace rfl,
      hitem.skipValue (.list :: opened) hlead.allSpace (hmore.follows rest)]
    exact hmore.skipRest opened rest

theorem DenotesMembers.skipRest {more : List Char} {members : List (List Char × Json)}
    (h : DenotesMembers more members) (opened : List Opened) (rest : List Piece) :
    Json.skipRest (.record :: opened) (ofChars more ++ .char '}' :: rest) =
      Json.skipRest opened rest := by
  cases h with
  | nil hgap => exact skipRest_close hgap.allSpace
  | @cons gap key _ lead text more _ _ hgap hkey hlead hvalue hmore =>
    have htext : ofChars (gap ++ ',' :: (key ++ (lead ++ (text ++ more)))) ++ .char '}' :: rest =
        ofChars gap ++ .char ',' :: (ofChars key ++ (ofChars lead ++ (ofChars text ++
          (ofChars more ++ .char '}' :: rest)))) := by
      simp only [ofChars_append, ofChars_cons, List.append_assoc, List.cons_append]
    have hskip : skipToValue .record (ofChars key ++ (ofChars lead ++ (ofChars text ++
        (ofChars more ++ .char '}' :: rest)))) = .ok _ := skipKey_isKey hkey _
    rw [htext, skipRest_comma hgap.allSpace hskip,
      hvalue.skipValue (.record :: opened) hlead.allSpace (hmore.follows rest)]
    exact hmore.skipRest opened rest

end

/-- Reading past a value arrives at what follows it. -/
theorem Denotes.skip {text : List Char} {document : Json} (h : Denotes text document)
    {lead rest : List Piece} (hlead : AllSpace lead) (hrest : Follows rest) :
    Json.skip (lead ++ (ofChars text ++ rest)) = .ok rest := by
  rw [Json.skip, h.skipValue [] hlead hrest, skipRest_nil]

end ModuleSurface.Json
