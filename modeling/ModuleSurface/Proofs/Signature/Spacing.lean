import ModuleSurface.Proofs.Signature.Accepted
import ModuleSurface.Proofs.Signature.Position

/-!
# Spacing — blanks between the parts of a signature do not matter

Blanks may be put around a signature, around its slots and what stands behind the parentheses, on
both sides of the marks in a slot and behind the arrow (`Spaced`).  They are all trimmed where the
text is cut, and none of them changes where it is cut or what a slot stands for
(`Parts.Spaced.alike`).  So parsing gives the same, faults included (`parse_of_spaced`).
-/

namespace ModuleSurface.Signature

open Text (trim join AllBlank isBlank trim_append_left trim_append_right trim_trim trim_eq_nil_iff
  isEmpty_trim_iff exists_trim exists_trim_append mem_trim head?_trim)

/-! ## 1. Texts with blanks put into them -/

def Around (text spaced : List Char) : Prop :=
  ∃ lead tail, AllBlank lead ∧ AllBlank tail ∧ spaced = lead ++ text ++ tail

/-- Parts with blanks put around each of them, which is at the ends of a slot and on both sides of
the marks in it. -/
structure Parts.Spaced (parts spaced : Parts) : Prop where
  name : Around parts.name spaced.name
  type : Option.Rel Around parts.type spaced.type
  value : Option.Rel Around parts.value spaced.value

/-- A slot with blanks put at its ends and on both sides of its marks.  These are the first equals
sign on top and the first colon on top before that. -/
def SlotSpaced (slot spaced : List Char) : Prop :=
  ∃ parts loose : Parts, parts.IsCut ∧ parts.text = slot ∧ parts.Spaced loose ∧ loose.text = spaced

/-- A text with blanks put behind the arrow that it begins with. -/
def ArrowSpaced (after spaced : List Char) : Prop :=
  ∃ lead blanks type, AllBlank lead ∧ AllBlank blanks ∧ after = lead ++ '-' :: '>' :: type ∧
    spaced = lead ++ '-' :: '>' :: (blanks ++ type)

/-- What stands behind the parentheses, with blanks put around it and, if there is an arrow, behind
that. -/
def AfterSpaced (after spaced : List Char) : Prop :=
  ∃ between, (between = after ∨ ArrowSpaced after between) ∧ Around between spaced

/-- Slots in parentheses and what stands behind them, with blanks put around all parts. -/
def Spaced (slots : List (List Char)) (after text : List Char) : Prop :=
  ∃ looseSlots looseAfter, List.Forall₂ SlotSpaced slots looseSlots ∧
    AfterSpaced after looseAfter ∧ Around (enclose looseSlots looseAfter) text

def Parts.marks (parts : Parts) : List Char :=
  marked ':' parts.type ++ marked '=' parts.value

theorem Parts.text_eq (parts : Parts) : parts.text = parts.name ++ parts.marks :=
  List.append_assoc ..

theorem Around.trim_eq {text spaced : List Char} (h : Around text spaced) :
    trim spaced = trim text := by
  obtain ⟨lead, tail, hlead, htail, rfl⟩ := h
  rw [trim_append_right htail, trim_append_left hlead]

theorem Around.nested_iff {text spaced : List Char} (h : Around text spaced) :
    Nested spaced ↔ Nested text := by
  rw [← nested_trim_iff, h.trim_eq, nested_trim_iff]

theorem Around.onTop_iff {text spaced : List Char} (h : Around text spaced) (htext : Nested text)
    {c : Char} (hc : isBlank c = false) : OnTop c spaced ↔ OnTop c text := by
  rw [← onTop_trim_iff hc (h.nested_iff.mpr htext), h.trim_eq, onTop_trim_iff hc htext]

theorem around_trim (text : List Char) : Around (trim text) text := by
  obtain ⟨lead, tail, htext, hlead, htail⟩ := exists_trim text
  exact ⟨lead, tail, hlead, htail, htext⟩

theorem around_refl (text : List Char) : Around text text :=
  ⟨[], [], Text.allBlank_nil, Text.allBlank_nil, by simp⟩

theorem forall_mem_iff_of_rel {part spaced : Option (List Char)} {P : List Char → Prop}
    (h : Option.Rel Around part spaced)
    (hP : ∀ text ∈ part, ∀ loose, Around text loose → (P loose ↔ P text)) :
    (∀ text ∈ spaced, P text) ↔ ∀ text ∈ part, P text := by
  cases h with
  | none => simp
  | @some text loose h => simpa using hP text rfl loose h

theorem kept_of_rel {part spaced : Option (List Char)} (h : Option.Rel Around part spaced) :
    kept spaced = kept part := by
  cases h with
  | none => rfl
  | some h => rw [kept, kept, h.trim_eq]

theorem onTop_marked_of_rel {part spaced : Option (List Char)} {c mark : Char}
    (hmark : isOrdinary mark = true) (hc : isBlank c = false) (h : Option.Rel Around part spaced)
    (hpart : ∀ text ∈ part, Nested text) :
    OnTop c (marked mark spaced) ↔ OnTop c (marked mark part) := by
  cases h with
  | none => rfl
  | some h => rw [marked, marked, onTop_cons_iff hmark, onTop_cons_iff hmark,
      h.onTop_iff (hpart _ rfl) hc]

namespace Parts.Spaced

variable {parts loose : Parts} (h : parts.Spaced loose)

include h

/-- Blanks do not change which marks are the first ones on top. -/
theorem isCut (hcut : parts.IsCut) : loose.IsCut where
  name_nested := h.name.nested_iff.mpr hcut.name_nested
  name_free mark hmark := by
    have hblank : isBlank mark = false := isBlank_of_mem_marks (List.mem_cons_of_mem _ hmark)
    rw [h.name.onTop_iff hcut.name_nested hblank]
    exact hcut.name_free mark hmark
  type_nested :=
    (forall_mem_iff_of_rel h.type fun _ _ _ haround => haround.nested_iff).mpr hcut.type_nested
  type_free := by
    refine (forall_mem_iff_of_rel h.type fun text htext other haround => ?_).mpr hcut.type_free
    rw [haround.onTop_iff (hcut.type_nested text htext) (by decide)]
  value_nested :=
    (forall_mem_iff_of_rel h.value fun _ _ _ haround => haround.nested_iff).mpr hcut.value_nested

theorem onTop_iff (hcut : parts.IsCut) {c : Char} (hc : isBlank c = false) :
    OnTop c loose.text ↔ OnTop c parts.text := by
  rw [(h.isCut hcut).onTop_text_iff, hcut.onTop_text_iff, h.name.onTop_iff hcut.name_nested hc,
    onTop_marked_of_rel rfl hc h.type hcut.type_nested,
    onTop_marked_of_rel rfl hc h.value hcut.value_nested]

/-- A parameter is read from its trimmed parts. -/
theorem readParameter_eq (hcut : parts.IsCut) (kind : ParameterKind) :
    readParameter kind loose.text = readParameter kind parts.text := by
  rw [readParameter_text kind (h.isCut hcut), readParameter_text kind hcut, h.name.trim_eq,
    kept_of_rel h.type, kept_of_rel h.value]

/-- Either there are no marks, or both texts have the same one behind the name. -/
theorem marks_cases :
    (parts.marks = [] ∧ loose.marks = []) ∨
      ∃ mark ∈ [':', '='], ∃ more looseMore, parts.marks = mark :: more ∧
        loose.marks = mark :: looseMore := by
  obtain ⟨name, type, value⟩ := parts
  obtain ⟨looseName, looseType, looseValue⟩ := loose
  obtain ⟨-, htype, hvalue⟩ := h
  cases htype with
  | none =>
    cases hvalue with
    | none => exact .inl ⟨rfl, rfl⟩
    | some => exact .inr ⟨'=', by simp, _, _, rfl, rfl⟩
  | some => exact .inr ⟨':', by simp, _, _, rfl, rfl⟩

end Parts.Spaced

/-- Blanks around the text of some parts are blanks around the first and the last of them. -/
theorem exists_spaced_of_around (parts : Parts) {spaced : List Char}
    (h : Around parts.text spaced) : ∃ loose, parts.Spaced loose ∧ loose.text = spaced := by
  obtain ⟨name, type, value⟩ := parts
  obtain ⟨lead, tail, hlead, htail, rfl⟩ := h
  have hfront : ∀ text, Around text (lead ++ text) :=
    fun text => ⟨lead, [], hlead, Text.allBlank_nil, by simp⟩
  have hback : ∀ text, Around text (text ++ tail) :=
    fun text => ⟨[], tail, Text.allBlank_nil, htail, by simp⟩
  have hrefl : ∀ part, Option.Rel Around part part := by
    intro part
    cases part with
    | none => exact .none
    | some text => exact .some (around_refl text)
  -- the blanks at the end belong to the last part that is there
  cases value with
  | some value =>
    exact ⟨⟨lead ++ name, type, some (value ++ tail)⟩,
      ⟨hfront name, hrefl type, .some (hback value)⟩, by simp [Parts.text, marked]⟩
  | none =>
    cases type with
    | some type =>
      exact ⟨⟨lead ++ name, some (type ++ tail), none⟩,
        ⟨hfront name, .some (hback type), .none⟩, by simp [Parts.text, marked]⟩
    | none =>
      exact ⟨⟨lead ++ name ++ tail, none, none⟩, ⟨⟨lead, tail, hlead, htail, rfl⟩, .none, .none⟩,
        by simp [Parts.text, marked]⟩

theorem readParameter_of_around {body spaced : List Char} (hbody : Nested body)
    (h : Around body spaced) (kind : ParameterKind) :
    readParameter kind spaced = readParameter kind body := by
  obtain ⟨parts, rfl, hcut⟩ := exists_parts hbody
  obtain ⟨loose, hloose, rfl⟩ := exists_spaced_of_around parts h
  exact hloose.readParameter_eq hcut kind

theorem readParameter_of_trim {body other : List Char} (hbody : Nested body)
    (h : trim other = trim body) (kind : ParameterKind) :
    readParameter kind other = readParameter kind body := by
  have htrim : Nested (trim body) := (nested_trim_iff body).mpr hbody
  rw [readParameter_of_around htrim (around_trim body),
    ← readParameter_of_around htrim (h ▸ around_trim other)]

/-! ## 2. What a slot stands for -/

/-- Slots that stand for the same, or for the same parameter in two texts. -/
inductive Slot.Alike : Slot → Slot → Prop
  | refl (slot : Slot) : Alike slot slot
  | varKeyword {body other : List Char}
      (h : ∀ kind, readParameter kind other = readParameter kind body) :
      Alike (.varKeyword body) (.varKeyword other)
  | varPositional {body other : List Char}
      (h : ∀ kind, readParameter kind other = readParameter kind body) :
      Alike (.varPositional body) (.varPositional other)
  | plain {body other : List Char}
      (h : ∀ kind, readParameter kind other = readParameter kind body) :
      Alike (.plain body) (.plain other)

theorem Slot.Alike.take_eq {slot other : Slot} (h : Alike slot other) (r : Reading)
    (position : Nat) : r.take position other = r.take position slot := by
  cases h with
  | refl => rfl
  | varKeyword h | varPositional h | plain h => simp only [Reading.take, Reading.add, h]

/-- What a slot stands for that has some stars before its body. -/
def Slot.ofStars (stars body : List Char) : Slot :=
  match stars with
  | [] => .plain body
  | [_] => .varPositional body
  | _ => .varKeyword body

theorem Slot.alike_ofStars (stars : List Char) {body other : List Char}
    (h : ∀ kind, readParameter kind other = readParameter kind body) :
    Alike (ofStars stars body) (ofStars stars other) := by
  unfold ofStars
  split
  · exact .plain h
  · exact .varPositional h
  · exact .varKeyword h

/-- Whether some stars are those that are taken off when the given text follows. -/
def AreStars (stars base : List Char) : Prop :=
  stars = ['*', '*'] ∨ (stars = ['*'] ∧ ¬ ['*'] <+: base) ∨
    (stars = [] ∧ ∀ c ∈ base.head?, isBlank c = false ∧ c ≠ '*')

theorem AreStars.nested {stars base : List Char} (h : AreStars stars base) : Nested stars := by
  rcases h with rfl | ⟨rfl, -⟩ | ⟨rfl, -⟩ <;> decide

theorem exists_stars (name : List Char) :
    ∃ lead stars base, AllBlank lead ∧ AreStars stars base ∧ name = lead ++ (stars ++ base) := by
  refine ⟨name.takeWhile isBlank, ?_⟩
  have hlead : AllBlank (name.takeWhile isBlank) := fun c hc => List.mem_takeWhile_imp hc
  have hname : name = name.takeWhile isBlank ++ name.dropWhile isBlank :=
    List.takeWhile_append_dropWhile.symm
  have hhead := List.head?_dropWhile_not isBlank name
  -- two stars are looked for before a single one, as where a slot is read
  generalize name.dropWhile isBlank = core at hname hhead
  by_cases hstar : ['*'] <+: core
  · obtain ⟨base, rfl⟩ := hstar
    by_cases hdouble : ['*'] <+: base
    · obtain ⟨more, rfl⟩ := hdouble
      exact ⟨['*', '*'], more, hlead, .inl rfl, hname⟩
    · exact ⟨['*'], base, hlead, .inr (.inl ⟨rfl, hdouble⟩), hname⟩
  · refine ⟨[], core, hlead, .inr (.inr ⟨rfl, fun c hc => ⟨?_, ?_⟩⟩), hname⟩
    · rw [Option.mem_def.mp hc] at hhead
      simpa using hhead
    · rintro rfl
      obtain ⟨more, rfl⟩ := List.head?_eq_some_iff.mp hc
      exact hstar ⟨more, rfl⟩

theorem not_star_append {left right : List Char} (hleft : ¬ ['*'] <+: left)
    (hright : ¬ ['*'] <+: right) : ¬ ['*'] <+: left ++ right := by
  cases left with
  | nil => exact hright
  | cons c left => simpa using hleft

theorem not_star_of_allBlank {text : List Char} (h : AllBlank text) : ¬ ['*'] <+: text := by
  rintro ⟨more, rfl⟩
  exact absurd (h '*' (by simp)) (by decide)

section Marked

variable {stars base back rest : List Char} {mark : Char} (hmark : mark ∈ [':', '='])

include hmark

theorem isBlank_of_mark : isBlank mark = false :=
  isBlank_of_mem_marks (List.mem_cons_of_mem _ hmark)

theorem mem_trim_of_mark (front : List Char) : mark ∈ trim (front ++ mark :: rest) :=
  mem_trim (by simp) (isBlank_of_mark hmark)

theorem exists_head?_trim (hbase : ∀ c ∈ base.head?, isBlank c = false ∧ c ≠ '*')
    (hback : AllBlank back) (rest : List Char) :
    ∃ c, c ≠ '*' ∧ (trim (base ++ back ++ mark :: rest)).head? = some c := by
  cases base with
  | nil =>
    refine ⟨mark, ?_, ?_⟩
    · rintro rfl
      simp at hmark
    · rw [List.nil_append, trim_append_left hback, head?_trim (isBlank_of_mark hmark)]
  | cons c base =>
    obtain ⟨hc, hstar⟩ := hbase c rfl
    exact ⟨c, hstar, head?_trim hc⟩

/-- A slot with a mark in it is a parameter, with the stars that it begins with. -/
theorem exists_ofText_trim (hstars : AreStars stars base) (hback : AllBlank back)
    (rest : List Char) :
    ∃ body, trim body = trim (base ++ back ++ mark :: rest) ∧
      Slot.ofText (trim (stars ++ (base ++ back ++ mark :: rest))) = .ofStars stars body := by
  have hmem : mark ∈ trim (base ++ back ++ mark :: rest) := mem_trim_of_mark hmark _
  rcases hstars with rfl | ⟨rfl, hstar⟩ | ⟨rfl, hbase⟩
  · obtain ⟨body, htrim, -, hbody⟩ :=
      exists_trim_append (show trim ['*', '*'] = ['*', '*'] by decide) (by simp)
        (base ++ back ++ mark :: rest)
    exact ⟨body, hbody, by rw [htrim]; rfl⟩
  · obtain ⟨body, htrim, hinitial, hbody⟩ :=
      exists_trim_append (show trim ['*'] = ['*'] by decide) (by simp)
        (base ++ back ++ mark :: rest)
    have hnone : ¬ ['*'] <+: mark :: rest := by
      rintro ⟨more, hmore⟩
      rw [← (List.cons.inj hmore).1] at hmark
      contradiction
    have hfree : ¬ ['*'] <+: base ++ back ++ mark :: rest :=
      not_star_append (not_star_append hstar (not_star_of_allBlank hback)) hnone
    have hne : body ≠ [] := by
      rintro rfl
      rw [← hbody] at hmem
      contradiction
    refine ⟨body, hbody, ?_⟩
    rw [htrim, List.singleton_append, ofText_varPositional hne fun h => hfree (h.trans hinitial)]
    rfl
  · -- the mark keeps the text from being empty or a slash, its head from beginning with a star
    obtain ⟨c, hc, hhead⟩ := exists_head?_trim hmark hbase hback rest
    refine ⟨_, trim_trim _, ?_⟩
    rw [List.nil_append, Slot.ofStars]
    apply ofText_plain
    · exact List.ne_nil_of_mem hmem
    · intro hslash
      rw [hslash, List.mem_singleton] at hmem
      rw [hmem] at hmark
      contradiction
    · rintro ⟨more, hmore⟩
      rw [← hmore] at hhead
      exact hc (Option.some.inj hhead).symm

end Marked

theorem Parts.IsCut.of_append {parts : Parts} (h : parts.IsCut) {front base : List Char}
    (hname : parts.name = front ++ base) (hfront : Nested front) :
    Parts.IsCut { parts with name := base } := by
  refine ⟨?_, fun mark hmark htop => ?_, h.type_nested, h.type_free, h.value_nested⟩
  · exact (hname ▸ h.name_nested).of_append hfront
  · refine h.name_free mark hmark ?_
    rw [hname, onTop_append_iff hfront]
    exact .inr htop

/-- Blanks do not change what a slot stands for. -/
theorem Parts.Spaced.alike {parts loose : Parts} (h : parts.Spaced loose) (hcut : parts.IsCut) :
    Slot.Alike (.ofText (trim parts.text)) (.ofText (trim loose.text)) := by
  rw [parts.text_eq, loose.text_eq]
  rcases h.marks_cases with ⟨hnone, hlooseNone⟩ | ⟨mark, hmark, more, looseMore, hmarks, hloose⟩
  · -- the slot is a name and nothing else
    rw [hnone, hlooseNone, List.append_nil, List.append_nil, h.name.trim_eq]
    exact .refl _
  · obtain ⟨lead, stars, base, hlead, hstars, hname⟩ := exists_stars parts.name
    obtain ⟨front, back, hfront, hback, hlooseName⟩ := h.name
    -- without the blanks and the stars at the start, the two texts give the same parameter
    have hcutBase : Parts.IsCut { parts with name := base } := by
      have hsplit : parts.name = lead ++ stars ++ base := by rw [hname, List.append_assoc]
      exact hcut.of_append hsplit ((nested_of_allBlank hlead).append hstars.nested)
    have hbase : Parts.Spaced { parts with name := base } { loose with name := base ++ back } :=
      ⟨⟨[], back, Text.allBlank_nil, hback, rfl⟩, h.type, h.value⟩
    have htext : Parts.text { parts with name := base } = base ++ mark :: more := by
      rw [Parts.text_eq, ← hmarks]
      rfl
    have hlooseText : Parts.text { loose with name := base ++ back } =
        base ++ back ++ mark :: looseMore := by
      rw [Parts.text_eq, ← hloose]
      rfl
    have hnested := hcutBase.text_nested
    have hlooseNested := (hbase.isCut hcutBase).text_nested
    have hread := hbase.readParameter_eq hcutBase
    rw [htext] at hnested hread
    rw [hlooseText] at hlooseNested hread
    obtain ⟨body, hbody, hslot⟩ := exists_ofText_trim hmark hstars Text.allBlank_nil more
    obtain ⟨other, hother, hlooseSlot⟩ := exists_ofText_trim hmark hstars hback looseMore
    rw [List.append_nil] at hbody hslot
    rw [hlooseName, hname, hmarks, hloose]
    simp only [List.append_assoc] at hslot hlooseSlot ⊢
    rw [trim_append_left hlead, hslot, trim_append_left hfront, trim_append_left hlead, hlooseSlot]
    refine Slot.alike_ofStars stars fun kind => ?_
    rw [readParameter_of_trim hlooseNested hother, hread, readParameter_of_trim hnested hbody]

/-! ## 3. The whole text -/

theorem SlotSpaced.alike {slot spaced : List Char} (h : SlotSpaced slot spaced) :
    Slot.Alike (.ofText (trim slot)) (.ofText (trim spaced)) := by
  obtain ⟨parts, loose, hcut, rfl, hloose, rfl⟩ := h
  exact hloose.alike hcut

theorem SlotSpaced.isPiece {slot spaced : List Char} (h : SlotSpaced slot spaced)
    (hslot : IsPiece ',' slot) : IsPiece ',' spaced := by
  obtain ⟨parts, loose, hcut, rfl, hloose, rfl⟩ := h
  refine ⟨(hloose.isCut hcut).text_nested, ?_⟩
  rw [hloose.onTop_iff hcut (by decide)]
  exact hslot.2

theorem ofText_eq_blank_iff (slot : List Char) : Slot.ofText slot = .blank ↔ slot = [] := by
  constructor
  · intro h
    rcases ofText_cases slot with ⟨hnil, -⟩ | ⟨-, htext⟩ | ⟨-, htext⟩ | ⟨-, htext⟩ |
      ⟨-, -, -, htext⟩ | ⟨-, -, -, htext⟩
    · exact hnil
    all_goals
      rw [htext] at h
      contradiction
  · rintro rfl
    rfl

theorem SlotSpaced.allBlank_iff {slot spaced : List Char} (h : SlotSpaced slot spaced) :
    AllBlank spaced ↔ AllBlank slot := by
  rw [← trim_eq_nil_iff, ← trim_eq_nil_iff, ← ofText_eq_blank_iff, ← ofText_eq_blank_iff]
  have halike := h.alike
  generalize Slot.ofText (trim slot) = read at halike
  generalize Slot.ofText (trim spaced) = other at halike
  cases halike <;> simp

theorem takeAll_of_spaced {slots spaced : List (List Char)}
    (h : List.Forall₂ SlotSpaced slots spaced) (r : Reading) (position : Nat) :
    r.takeAll position spaced = r.takeAll position slots := by
  induction h generalizing r position with
  | nil => rfl
  | cons hslot _ ih =>
    rw [Reading.takeAll, Reading.takeAll, hslot.alike.take_eq]
    exact congrArg _ (funext fun next => ih next (position + 1))

theorem isVoid_of_spaced {slots spaced : List (List Char)}
    (h : List.Forall₂ SlotSpaced slots spaced) :
    (spaced = [] ∨ IsVoid spaced) ↔ (slots = [] ∨ IsVoid slots) := by
  cases h with
  | nil => rfl
  | cons hslot hmore =>
    cases hmore with
    | nil => simp [IsVoid, hslot.allBlank_iff]
    | cons => simp [IsVoid]

theorem readSlots_of_spaced {slots spaced : List (List Char)}
    (h : List.Forall₂ SlotSpaced slots spaced) : readSlots spaced = readSlots slots := by
  have hempty : (trim (join [','] spaced)).isEmpty = (trim (join [','] slots)).isEmpty := by
    rw [Bool.eq_iff_iff, isEmpty_trim_join_iff, isEmpty_trim_join_iff, isVoid_of_spaced h]
  rw [readSlots, readSlots, hempty, takeAll_of_spaced h]

/-- An arrow with nothing but blanks behind it is a fault, which is told about the arrow alone. -/
theorem readReturns_arrow {lead : List Char} (hlead : AllBlank lead) (type : List Char) :
    readReturns (lead ++ '-' :: '>' :: type) =
      if (trim type).isEmpty then .error (.trailingText "->")
      else .ok (some (String.ofList (trim type))) := by
  have harrow : trim ['-', '>'] = ['-', '>'] := by decide
  obtain ⟨more, htrim, -, hmore⟩ := exists_trim_append harrow (by simp) type
  -- the arrow begins the trimmed text, whatever blanks stand around
  have hwhole : trim (lead ++ '-' :: '>' :: type) = '-' :: '>' :: more := by
    rw [trim_append_left hlead]
    exact htrim
  unfold readReturns
  rw [hwhole]
  simp only [hmore]
  by_cases hblank : (trim type).isEmpty = true
  · have hnone : '-' :: '>' :: more = ['-', '>'] := by
      rw [isEmpty_trim_iff] at hblank
      rw [trim_append_right hblank, harrow] at htrim
      exact htrim.symm
    rw [if_pos hblank, if_pos hblank, hnone]
  · rw [if_neg hblank, if_neg hblank]

theorem AfterSpaced.readReturns_eq {after spaced : List Char} (h : AfterSpaced after spaced) :
    readReturns spaced = readReturns after := by
  obtain ⟨between, hbetween, haround⟩ := h
  rw [readReturns_congr haround.trim_eq]
  rcases hbetween with rfl | ⟨lead, blanks, type, hlead, hblanks, rfl, rfl⟩
  · rfl
  · rw [readReturns_arrow hlead, readReturns_arrow hlead, trim_append_left hblanks]

theorem forall_isPiece_of_spaced {slots spaced : List (List Char)}
    (h : List.Forall₂ SlotSpaced slots spaced) (hslots : ∀ slot ∈ slots, IsPiece ',' slot) :
    ∀ slot ∈ spaced, IsPiece ',' slot := by
  induction h with
  | nil => exact hslots
  | cons hslot _ ih =>
    obtain ⟨hfirst, hmore⟩ := List.forall_mem_cons.mp hslots
    exact List.forall_mem_cons.mpr ⟨hslot.isPiece hfirst, ih hmore⟩

/-- A signature is read as it would be without the blanks between its parts, and so are its
faults. -/
theorem parse_of_spaced {slots : List (List Char)} {after text : List Char}
    (hslots : ∀ slot ∈ slots, IsPiece ',' slot) (h : Spaced slots after text) :
    parse (String.ofList text) = parse (String.ofList (enclose slots after)) := by
  obtain ⟨looseSlots, looseAfter, hloose, hafter, haround⟩ := h
  have hpieces := forall_isPiece_of_spaced hloose hslots
  rw [parse, parse, String.toList_ofList, String.toList_ofList]
  calc ofChars text
      = ofChars (enclose looseSlots looseAfter) := by rw [ofChars, ofChars, haround.trim_eq]
    _ = ofChars (enclose slots after) := by
      rw [ofChars_enclose hpieces, ofChars_enclose hslots, hafter.readReturns_eq,
        readSlots_of_spaced hloose]

/-- Slots without blanks; the colon in the last one has nothing behind it. -/
def tightSample : List (List Char) :=
  ["a:T=1".toList, "/".toList, "**k:".toList]

def looseSample : List Char :=
  "\u2003(\ta : T = 1 , / , **k :\u00a0)\n-> int ".toList

theorem spaced_looseSample : Spaced tightSample "->int".toList looseSample := by
  have hfirst : SlotSpaced "a:T=1".toList "\ta : T = 1 ".toList := by
    refine ⟨⟨['a'], some ['T'], some ['1']⟩, ⟨"\ta ".toList, some " T ".toList, some " 1 ".toList⟩,
      by decide, by rfl, ⟨?_, .some ?_, .some ?_⟩, by rfl⟩
    · exact ⟨['\t'], [' '], by decide, by decide, rfl⟩
    · exact ⟨[' '], [' '], by decide, by decide, rfl⟩
    · exact ⟨[' '], [' '], by decide, by decide, rfl⟩
  have hslash : SlotSpaced "/".toList " / ".toList := by
    refine ⟨⟨['/'], none, none⟩, ⟨" / ".toList, none, none⟩,
      by decide, by rfl, ⟨?_, .none, .none⟩, by rfl⟩
    exact ⟨[' '], [' '], by decide, by decide, rfl⟩
  have hlast : SlotSpaced "**k:".toList " **k :\u00a0".toList := by
    refine ⟨⟨"**k".toList, some [], none⟩, ⟨" **k ".toList, some "\u00a0".toList, none⟩,
      by decide, by rfl, ⟨?_, .some ?_, .none⟩, by rfl⟩
    · exact ⟨[' '], [' '], by decide, by decide, rfl⟩
    · exact ⟨[], ['\u00a0'], by decide, by decide, rfl⟩
  have hafter : AfterSpaced "->int".toList "\n-> int".toList := by
    refine ⟨"-> int".toList, .inr ⟨[], [' '], "int".toList, by decide, by decide, rfl, rfl⟩, ?_⟩
    exact ⟨['\n'], [], by decide, by decide, rfl⟩
  exact ⟨_, _, .cons hfirst (.cons hslash (.cons hlast .nil)), hafter, ['\u2003'], [' '],
    by decide, by decide, by rfl⟩

theorem parse_of_spaced_looseSample :
    (∀ slot ∈ tightSample, IsPiece ',' slot) ∧ Spaced tightSample "->int".toList looseSample ∧
      parse (String.ofList looseSample) =
        parse (String.ofList (enclose tightSample "->int".toList)) ∧
      parse (String.ofList looseSample) =
        .ok ⟨[⟨"a", .positionalOnly, some "T", some "1"⟩, ⟨"k", .varKeyword, none, none⟩],
          some "int"⟩ := by
  have hslots : ∀ slot ∈ tightSample, IsPiece ',' slot := by decide +kernel
  have hsame := parse_of_spaced hslots spaced_looseSample
  refine ⟨hslots, spaced_looseSample, hsame, ?_⟩
  rw [hsame]
  decide +kernel

end ModuleSurface.Signature
