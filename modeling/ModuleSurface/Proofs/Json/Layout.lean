import Mathlib.Tactic.Ring
import ModuleSurface.Proofs.Json.Unique

/-!
# Layout — the layouts of a document differ only in the blanks between its tokens

A scanner that knows from each character whether it is in a string literal takes the spaces and
line feeds out of a written text that the layout put in, and no others (`squeezes_write`).  The line
feeds are as many as the document has items and members, whatever its texts say (`count_write`), and
in either layout the text stands for the document (`denotes_write`).
-/

namespace ModuleSurface.Json

/-! ## 1. Blanks outside string literals -/

/-- Where a reader of a text stands: outside string literals, inside one, or inside one behind a
backslash. -/
inductive Standing
  | outside
  | inside
  | escaped
  deriving DecidableEq, Repr

def Standing.next : Standing → Char → Standing
  | outside, c => if c = '"' then inside else outside
  | inside, c => if c = '"' then outside else if c = '\\' then escaped else inside
  | escaped, _ => inside

/-- A text without the spaces and line feeds that stand outside string literals. -/
def squeezeFrom : Standing → List Char → List Char
  | _, [] => []
  | standing, c :: rest =>
      if standing = .outside ∧ (c = ' ' ∨ c = '\n') then squeezeFrom .outside rest
      else c :: squeezeFrom (standing.next c) rest

def squeeze (text : List Char) : List Char :=
  squeezeFrom .outside text

/-- Whether a text that starts and ends outside string literals leaves another one behind. -/
def Squeezes (text squeezed : List Char) : Prop :=
  ∀ rest, squeeze (text ++ rest) = squeezed ++ squeeze rest

theorem squeezes_nil : Squeezes [] [] :=
  fun _ => rfl

theorem Squeezes.append {left left' right right' : List Char} (h : Squeezes left left')
    (h' : Squeezes right right') : Squeezes (left ++ right) (left' ++ right') := by
  intro rest
  rw [List.append_assoc, h, h', List.append_assoc]

theorem squeezes_self {text : List Char} (h : ∀ c ∈ text, c ∉ ['"', ' ', '\n']) :
    Squeezes text text := by
  intro rest
  induction text with
  | nil => rfl
  | cons c text ih =>
    obtain ⟨hc, htext⟩ := List.forall_mem_cons.mp h
    simp only [List.mem_cons, List.not_mem_nil, or_false, not_or] at hc
    have hnext : Standing.outside.next c = .outside := if_neg hc.1
    rw [List.cons_append, squeeze, squeezeFrom, if_neg (by simp [hc]), hnext]
    exact congrArg (c :: ·) (ih htext)

theorem squeezes_gap {gap : List Char} (h : ∀ c ∈ gap, c = ' ' ∨ c = '\n') : Squeezes gap [] := by
  intro rest
  induction gap with
  | nil => rfl
  | cons c gap ih =>
    obtain ⟨hc, hgap⟩ := List.forall_mem_cons.mp h
    rw [List.cons_append, squeeze, squeezeFrom, if_pos ⟨rfl, hc⟩]
    exact ih hgap

theorem squeezeFrom_inside {c : Char} (hquote : c ≠ '"') (hescape : c ≠ '\\') (rest : List Char) :
    squeezeFrom .inside (c :: rest) = c :: squeezeFrom .inside rest := by
  simp [squeezeFrom, Standing.next, hquote, hescape]

theorem squeezeFrom_escape (c : Char) (rest : List Char) :
    squeezeFrom .inside ('\\' :: c :: rest) = '\\' :: c :: squeezeFrom .inside rest := by
  simp [squeezeFrom, Standing.next]

theorem hexDigit_ne : ∀ n < 16, hexDigit n ≠ '"' ∧ hexDigit n ≠ '\\' ∧ hexDigit n ≠ '\n' := by
  decide

theorem squeezeFrom_literalChar (c : Char) (rest : List Char) :
    squeezeFrom .inside (literalChar c ++ rest) = literalChar c ++ squeezeFrom .inside rest := by
  rcases literalChar_cases c with ⟨letter, hchars, -, -⟩ | ⟨hcontrol, hchars⟩ |
    ⟨hquote, hescape, -, hchars⟩ <;> rw [hchars]
  -- either escape begins with a backslash, which takes up the character behind it
  · exact squeezeFrom_escape letter rest
  · obtain ⟨hquote, hescape, -⟩ := hexDigit_ne (c.toNat / 16) (by omega)
    obtain ⟨hquote', hescape', -⟩ := hexDigit_ne (c.toNat % 16) (by omega)
    simp only [List.cons_append, List.nil_append]
    rw [squeezeFrom_escape, squeezeFrom_inside (by decide) (by decide),
      squeezeFrom_inside (by decide) (by decide), squeezeFrom_inside hquote hescape,
      squeezeFrom_inside hquote' hescape']
  · exact squeezeFrom_inside hquote hescape rest

theorem squeezes_literal (content : List Char) : Squeezes (literal content) (literal content) := by
  intro rest
  have hcontent : squeezeFrom .inside (content.flatMap literalChar ++ '"' :: rest) =
      content.flatMap literalChar ++ '"' :: squeeze rest := by
    induction content with
    | nil => simp [squeezeFrom, Standing.next, squeeze]
    | cons c content ih =>
      rw [List.flatMap_cons, List.append_assoc, squeezeFrom_literalChar, ih, List.append_assoc]
  simpa [literal, squeeze, squeezeFrom, Standing.next] using hcontent

theorem squeezes_lineBreak (layout : Layout) (depth depth' : Nat) :
    Squeezes (layout.lineBreak depth) (Layout.compact.lineBreak depth') := by
  cases layout with
  | compact => exact squeezes_nil
  | pretty =>
    apply squeezes_gap
    intro c hc
    rcases List.mem_cons.mp hc with rfl | hc
    · exact .inr rfl
    · exact .inl (List.eq_of_mem_replicate hc)

theorem squeezes_colon (layout : Layout) : Squeezes layout.colon Layout.compact.colon := by
  have hcolon : Squeezes [':'] [':'] := squeezes_self (by simp)
  cases layout with
  | compact => exact hcolon
  | pretty => exact hcolon.append (squeezes_gap (by simp))

/-! ## 2. Documents that can be written -/

/-- Whether the numbers of a document are numbers of the data format. -/
inductive IsWritable : Json → Prop
  | null : IsWritable .null
  | boolean (value : Bool) : IsWritable (.boolean value)
  | numeral {digits : List Char} (h : IsNumeral digits) : IsWritable (.numeral digits)
  | string (content : List Char) : IsWritable (.string content)
  | array {items : List Json} (h : ∀ item ∈ items, IsWritable item) : IsWritable (.array items)
  | object {members : List (List Char × Json)} (h : ∀ member ∈ members, IsWritable member.2) :
      IsWritable (.object members)

def numeralMarks : List Char :=
  ['-', '+', '.', 'e', 'E']

theorem IsNumeral.isDigit_or_mem {digits : List Char} (h : IsNumeral digits) :
    ∀ c ∈ digits, IsDigit c ∨ c ∈ numeralMarks := by
  have hmarks : ∀ {text : List Char}, text ⊆ numeralMarks →
      ∀ c ∈ text, IsDigit c ∨ c ∈ numeralMarks := fun h c hc => .inr (h hc)
  have hmore : ∀ {text : List Char}, (∀ c ∈ text, IsDigit c) →
      ∀ c ∈ text, IsDigit c ∨ c ∈ numeralMarks := fun h c hc => .inl (h c hc)
  cases h with
  | parts hsign hwhole hfraction hexponent =>
    -- sign, whole part, fraction and exponent in turn
    simp only [List.forall_mem_append]
    refine ⟨?_, ?_, ?_, ?_⟩
    · rcases hsign with rfl | rfl <;> exact hmarks (by decide)
    · cases hwhole with
      | zero => exact hmore (List.forall_mem_singleton.mpr (by decide))
      | digits hfirst _ hdigits => exact hmore (List.forall_mem_cons.mpr ⟨hfirst, hdigits⟩)
    · cases hfraction with
      | none => exact hmarks (by decide)
      | digits hdigits => exact List.forall_mem_cons.mpr ⟨.inr (by decide), hmore hdigits.2⟩
    · cases hexponent with
      | none => exact hmarks (by decide)
      | digits hletter hsign hdigits =>
        rw [List.forall_mem_cons, List.forall_mem_append]
        refine ⟨.inr ?_, ?_, hmore hdigits.2⟩
        · rcases hletter with rfl | rfl <;> decide
        · rcases hsign with rfl | rfl | rfl <;> exact hmarks (by decide)

theorem IsNumeral.not_mem {digits : List Char} (h : IsNumeral digits) :
    ∀ c ∈ digits, c ∉ ['"', ' ', '\n'] := by
  intro c hc hmem
  simp only [List.mem_cons, List.not_mem_nil, or_false] at hmem
  rcases hmem with rfl | rfl | rfl <;> exact absurd (h.isDigit_or_mem _ hc) (by decide)

section Squeezed

variable {layout : Layout}

theorem squeezes_writeItems {items : List Json}
    (h : ∀ item ∈ items, ∀ depth depth',
      Squeezes (item.write layout depth) (item.write .compact depth')) (depth depth' : Nat) :
    Squeezes (writeItems layout depth items) (writeItems .compact depth' items) := by
  have hcomma : Squeezes [','] [','] := squeezes_self (by simp)
  induction items with
  | nil => exact squeezes_nil
  | cons item items ih =>
    obtain ⟨hitem, hitems⟩ := List.forall_mem_cons.mp h
    rw [writeItems, writeItems]
    exact ((hcomma.append (squeezes_lineBreak layout depth depth')).append
      (hitem depth depth')).append (ih hitems)

theorem squeezes_writeMembers {members : List (List Char × Json)}
    (h : ∀ member ∈ members, ∀ depth depth',
      Squeezes (member.2.write layout depth) (member.2.write .compact depth'))
    (depth depth' : Nat) :
    Squeezes (writeMembers layout depth members) (writeMembers .compact depth' members) := by
  have hcomma : Squeezes [','] [','] := squeezes_self (by simp)
  induction members with
  | nil => exact squeezes_nil
  | cons member members ih =>
    obtain ⟨key, value⟩ := member
    obtain ⟨hvalue, hmembers⟩ := List.forall_mem_cons.mp h
    rw [writeMembers, writeMembers]
    exact ((((hcomma.append (squeezes_lineBreak layout depth depth')).append
      (squeezes_literal key)).append (squeezes_colon layout)).append
        (hvalue depth depth')).append (ih hmembers)

/-- Without the blanks outside its strings, a written document is what is written compactly. -/
theorem squeezes_write {document : Json} (h : document.IsWritable) (layout : Layout)
    (depth depth' : Nat) :
    Squeezes (document.write layout depth) (document.write .compact depth') := by
  induction h generalizing depth depth' with
  | null => exact squeezes_self (by simp [write])
  | boolean value => cases value <;> exact squeezes_self (by simp [write])
  | numeral h => exact squeezes_self h.not_mem
  | string content => exact squeezes_literal content
  | @array items _ ih =>
    have hopen : Squeezes ['['] ['['] := squeezes_self (by simp)
    have hclose : Squeezes [']'] [']'] := squeezes_self (by simp)
    cases items with
    | nil => exact squeezes_self (by simp [write])
    | cons item items =>
      obtain ⟨hitem, hitems⟩ := List.forall_mem_cons.mp ih
      -- part by part; the compact layout has the same line breaks, only that they are empty
      rw [write, write]
      exact ((((hopen.append (squeezes_lineBreak layout _ _)).append (hitem _ _)).append
        (squeezes_writeItems hitems _ _)).append (squeezes_lineBreak layout _ _)).append hclose
  | @object members _ ih =>
    have hopen : Squeezes ['{'] ['{'] := squeezes_self (by simp)
    have hclose : Squeezes ['}'] ['}'] := squeezes_self (by simp)
    cases members with
    | nil => exact squeezes_self (by simp [write])
    | cons member members =>
      obtain ⟨key, value⟩ := member
      obtain ⟨hvalue, hmembers⟩ := List.forall_mem_cons.mp ih
      rw [write, write]
      exact ((((((hopen.append (squeezes_lineBreak layout _ _)).append
        (squeezes_literal key)).append (squeezes_colon layout)).append (hvalue _ _)).append
          (squeezes_writeMembers hmembers _ _)).append (squeezes_lineBreak layout _ _)).append
            hclose

/-- A blank inside a string stays, also behind a quote that an escape takes up. -/
example : squeeze ['[', ' ', '"', ' ', '\\', '"', ' ', '"', '\n', ']'] =
    ['[', '"', ' ', '\\', '"', ' ', '"', ']'] := by decide

end Squeezed

/-! ## 3. Line feeds -/

mutual

/-- The number of line breaks that the pretty layout puts into a document. -/
def breaks : Json → Nat
  | null | boolean _ | numeral _ | string _ | array [] | object [] => 0
  | array (item :: items) => 2 + breaks item + breaksOfItems items
  | object ((_, value) :: members) => 2 + breaks value + breaksOfMembers members

def breaksOfItems : List Json → Nat
  | [] => 0
  | item :: items => 1 + breaks item + breaksOfItems items

def breaksOfMembers : List (List Char × Json) → Nat
  | [] => 0
  | (_, value) :: members => 1 + breaks value + breaksOfMembers members

end

def Layout.feeds : Layout → Nat
  | compact => 0
  | pretty => 1

theorem count_lineBreak (layout : Layout) (depth : Nat) :
    (layout.lineBreak depth).count '\n' = layout.feeds := by
  cases layout with
  | compact => rfl
  | pretty =>
    show ('\n' :: List.replicate (2 * depth) ' ').count '\n' = 1
    rw [List.count_cons_self, List.count_replicate, if_neg (by decide)]

theorem newline_not_mem_literalChar (c : Char) : '\n' ∉ literalChar c := by
  rcases literalChar_cases c with ⟨letter, hchars, -, hletter⟩ | ⟨hcontrol, hchars⟩ |
    ⟨-, -, hcontrol, hchars⟩ <;> rw [hchars]
  · have hfeed : letter ≠ '\n' := by
      rintro rfl
      simp [escapedChar?] at hletter
    simp [hfeed.symm]
  · obtain ⟨-, -, hfeed⟩ := hexDigit_ne (c.toNat / 16) (by omega)
    obtain ⟨-, -, hfeed'⟩ := hexDigit_ne (c.toNat % 16) (by omega)
    simp [hfeed.symm, hfeed'.symm]
  · rw [List.mem_singleton]
    rintro rfl
    exact absurd hcontrol (by decide)

/-- A line feed in a text is written as an escape. -/
theorem count_literal (content : List Char) : (literal content).count '\n' = 0 := by
  rw [List.count_eq_zero, literal]
  simp [newline_not_mem_literalChar]

theorem count_colon (layout : Layout) : layout.colon.count '\n' = 0 := by
  cases layout <;> rfl

theorem count_token {c : Char} (hc : c ≠ '\n') (rest : List Char) :
    (c :: rest).count '\n' = rest.count '\n' :=
  List.count_cons_of_ne hc

section Counted

variable {layout : Layout}

theorem count_writeItems {items : List Json}
    (h : ∀ item ∈ items, ∀ depth,
      (item.write layout depth).count '\n' = layout.feeds * item.breaks) (depth : Nat) :
    (writeItems layout depth items).count '\n' = layout.feeds * breaksOfItems items := by
  induction items with
  | nil => rfl
  | cons item items ih =>
    obtain ⟨hitem, hitems⟩ := List.forall_mem_cons.mp h
    simp only [writeItems, breaksOfItems, List.cons_append, count_token (by decide : ',' ≠ '\n'),
      List.count_append, count_lineBreak, hitem, ih hitems]
    ring

theorem count_writeMembers {members : List (List Char × Json)}
    (h : ∀ member ∈ members, ∀ depth,
      (member.2.write layout depth).count '\n' = layout.feeds * member.2.breaks) (depth : Nat) :
    (writeMembers layout depth members).count '\n' = layout.feeds * breaksOfMembers members := by
  induction members with
  | nil => rfl
  | cons member members ih =>
    obtain ⟨hvalue, hmembers⟩ := List.forall_mem_cons.mp h
    simp only [writeMembers, breaksOfMembers, List.cons_append,
      count_token (by decide : ',' ≠ '\n'), List.count_append, count_lineBreak, count_literal,
      count_colon, hvalue, ih hmembers]
    ring

/-- A written document has the line feeds that the layout puts in, and no others. -/
theorem count_write {document : Json} (h : document.IsWritable) (layout : Layout) (depth : Nat) :
    (document.write layout depth).count '\n' = layout.feeds * document.breaks := by
  induction h generalizing depth with
  | null => simp [write, breaks]
  | boolean value => cases value <;> simp [write, breaks]
  -- a line feed in a number or a string would be one that the layout did not put in
  | numeral h =>
    rw [write, breaks, Nat.mul_zero, List.count_eq_zero]
    exact fun hfeed => h.not_mem _ hfeed (by decide)
  | string content =>
    rw [write, breaks, Nat.mul_zero]
    exact count_literal content
  | @array items _ ih =>
    cases items with
    | nil => simp [write, breaks]
    | cons item items =>
      obtain ⟨hitem, hitems⟩ := List.forall_mem_cons.mp ih
      simp only [write, breaks, List.cons_append, count_token (by decide : '[' ≠ '\n'),
        List.count_append, count_lineBreak, hitem, count_writeItems hitems,
        count_token (by decide : ']' ≠ '\n'), List.count_nil]
      ring
  | @object members _ ih =>
    cases members with
    | nil => simp [write, breaks]
    | cons member members =>
      obtain ⟨hvalue, hmembers⟩ := List.forall_mem_cons.mp ih
      simp only [write, breaks, List.cons_append, count_token (by decide : '{' ≠ '\n'),
        List.count_append, count_lineBreak, count_literal, count_colon, hvalue,
        count_writeMembers hmembers, count_token (by decide : '}' ≠ '\n'), List.count_nil]
      ring

end Counted

/-! ## 4. Written texts in the grammar -/

theorem mem_escapeLetters {letter c : Char} (h : escapedChar? letter = some c) :
    (letter, c) ∈ escapeLetters := by
  unfold escapedChar? at h
  split at h
  all_goals first
    | contradiction
    | rw [← Option.some.inj h]; decide

theorem isHexDigit_hexDigit : ∀ n < 16, IsHexDigit n (hexDigit n) := by
  have hdigits : ∀ n < 16, lowerHexDigits[n]? = some (hexDigit n) := by decide
  exact fun n hn => .inl (hdigits n hn)

theorem spellsChar_literalChar (c : Char) : SpellsChar c (literalChar c) := by
  rcases literalChar_cases c with ⟨letter, hchars, -, hletter⟩ | ⟨hcontrol, hchars⟩ |
    ⟨hquote, hescape, hcontrol, hchars⟩ <;> rw [hchars]
  · exact .letter (mem_escapeLetters hletter)
  · have hzero : IsHexDigit 0 '0' := isHexDigit_hexDigit 0 (by decide)
    have hhigh := isHexDigit_hexDigit (c.toNat / 16) (by omega)
    have hlow := isHexDigit_hexDigit (c.toNat % 16) (by omega)
    have hvalue : ((0 * 16 + 0) * 16 + c.toNat / 16) * 16 + c.toNat % 16 = c.toNat := by omega
    have hnumber := SpellsChar.number (.digits hzero hzero hhigh hlow) (.inl (by omega))
    rwa [hvalue, Char.ofNat_toNat] at hnumber
  · exact .plain hquote hescape (Nat.le_of_not_lt hcontrol)

theorem spells_flatMap (content : List Char) : Spells content (content.flatMap literalChar) := by
  induction content with
  | nil => exact .nil
  | cons c content ih => exact .cons (spellsChar_literalChar c) ih

theorem isGap_lineBreak (layout : Layout) (depth : Nat) : IsGap (layout.lineBreak depth) := by
  cases layout with
  | compact => exact fun c hc => absurd hc List.not_mem_nil
  | pretty =>
    intro c hc
    rcases List.mem_cons.mp hc with rfl | hc
    · decide
    · rw [List.eq_of_mem_replicate hc]
      decide

theorem isGap_nil : IsGap [] :=
  fun _ hc => absurd hc List.not_mem_nil

/-- A key is written with the blanks before it, its colon, and the blanks before its value. -/
theorem exists_isKey (layout : Layout) (depth : Nat) (key : List Char) :
    ∃ written lead, IsKey written key ∧ IsGap lead ∧
      layout.lineBreak depth ++ literal key ++ layout.colon = written ++ lead := by
  have hkey := IsKey.literal (isGap_lineBreak layout depth) (spells_flatMap key) isGap_nil
  cases layout with
  | compact => exact ⟨_, [], hkey, isGap_nil, by simp [literal, Layout.colon]⟩
  | pretty => exact ⟨_, [' '], hkey, by simp [IsGap], by simp [literal, Layout.colon]⟩

section Denoted

variable {layout : Layout}

theorem denotesItems_writeItems {items : List Json}
    (h : ∀ item ∈ items, ∀ depth, Denotes (item.write layout depth) item) (depth : Nat)
    {tail : List Char} (htail : IsGap tail) :
    DenotesItems (writeItems layout depth items ++ tail) items := by
  induction items with
  | nil => exact .nil htail
  | cons item items ih =>
    obtain ⟨hitem, hitems⟩ := List.forall_mem_cons.mp h
    -- the comma stands directly behind what comes before, the line break behind the comma
    have hcons := DenotesItems.cons isGap_nil (isGap_lineBreak layout depth) (hitem depth)
      (ih hitems)
    simpa [writeItems] using hcons

theorem denotesMembers_writeMembers {members : List (List Char × Json)}
    (h : ∀ member ∈ members, ∀ depth, Denotes (member.2.write layout depth) member.2)
    (depth : Nat) {tail : List Char} (htail : IsGap tail) :
    DenotesMembers (writeMembers layout depth members ++ tail) members := by
  induction members with
  | nil => exact .nil htail
  | cons member members ih =>
    obtain ⟨key, value⟩ := member
    obtain ⟨hvalue, hmembers⟩ := List.forall_mem_cons.mp h
    obtain ⟨written, lead, hkey, hlead, hwritten⟩ := exists_isKey layout depth key
    have hcons := DenotesMembers.cons isGap_nil hkey hlead (hvalue depth) (ih hmembers)
    rw [List.nil_append, ← List.append_assoc written, ← hwritten] at hcons
    simpa [writeMembers] using hcons

/-- A written document is a text of the grammar that stands for it. -/
theorem denotes_write {document : Json} (h : document.IsWritable) (layout : Layout)
    (depth : Nat) : Denotes (document.write layout depth) document := by
  induction h generalizing depth with
  | null => rw [write]; exact .null
  | boolean value =>
    cases value
    · rw [write]; exact .no
    · rw [write]; exact .yes
  | numeral h => rw [write]; exact .numeral h
  | string content => rw [write]; exact .string (spells_flatMap content)
  | @array items _ ih =>
    cases items with
    | nil => rw [write]; exact .emptyArray isGap_nil
    | cons item items =>
      obtain ⟨hitem, hitems⟩ := List.forall_mem_cons.mp ih
      -- the line break before the closing bracket is the gap that ends the items
      have harray := Denotes.array (isGap_lineBreak layout (depth + 1)) (hitem (depth + 1))
        (denotesItems_writeItems hitems (depth + 1) (isGap_lineBreak layout depth))
      simpa [write] using harray
  | @object members _ ih =>
    cases members with
    | nil => rw [write]; exact .emptyObject isGap_nil
    | cons member members =>
      obtain ⟨key, value⟩ := member
      obtain ⟨hvalue, hmembers⟩ := List.forall_mem_cons.mp ih
      obtain ⟨written, lead, hkey, hlead, hwritten⟩ := exists_isKey layout (depth + 1) key
      have hobject := Denotes.object hkey hlead (hvalue (depth + 1))
        (denotesMembers_writeMembers hmembers (depth + 1) (isGap_lineBreak layout depth))
      rw [← List.append_assoc written, ← hwritten] at hobject
      simpa [write] using hobject

end Denoted

/-- In either layout, with any blanks behind it, a written document stands for itself only. -/
theorem isDocument_write_iff {document : Json} (h : document.IsWritable) (layout : Layout)
    {tail : List Char} (htail : IsGap tail) (document' : Json) :
    IsDocument (document.write layout 0 ++ tail) document' ↔ document' = document := by
  have hself : IsDocument (document.write layout 0 ++ tail) document :=
    .padded isGap_nil (denotes_write h layout 0) htail
  constructor
  · exact fun h' => h'.unique hself
  · rintro rfl
    exact hself

end ModuleSurface.Json
