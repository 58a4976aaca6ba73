import ModuleSurface.Proofs.Signature.Parts

/-!
# Slots — what reading the slots of a signature one after another amounts to

Where in the text a slot stands matters only to faults, so reading is a relation between states
(`Reading.Next` for one slot, `Reading.Reads` for a run).  A run keeps nothing of the slots but
which stars and slashes were among them (`Reading.Knows`), and that decides whether the next slot
fits (`exists_next_iff`).
-/

namespace ModuleSurface.Signature

open Text (trim AllBlank trim_eq_nil_iff)

/-! ## 1. One slot -/

def afterStars : List Char → List Char
  | '*' :: '*' :: body => body
  | '*' :: body => body
  | body => body

theorem nested_afterStars {slot : List Char} (h : Nested slot) : Nested (afterStars slot) := by
  have hstar : isOrdinary '*' = true := rfl
  unfold afterStars
  split
  · rwa [nested_cons_iff hstar, nested_cons_iff hstar] at h
  · rwa [nested_cons_iff hstar] at h
  · exact h

theorem afterStars_plain {body : List Char} (h : ¬ ['*'] <+: body) : afterStars body = body := by
  fun_cases afterStars body with
  | case1 rest => exact absurd ⟨'*' :: rest, rfl⟩ h
  | case2 rest => exact absurd ⟨rest, rfl⟩ h
  | case3 => rfl

theorem afterStars_star {body : List Char} (h : ¬ ['*'] <+: body) :
    afterStars ('*' :: body) = body := by
  rw [afterStars]
  rintro rest rfl
  exact h ⟨rest, rfl⟩

/-- The shapes of a slot, and what each stands for. -/
theorem ofText_cases (slot : List Char) :
    (slot = [] ∧ Slot.ofText slot = .blank) ∨
    (slot = ['/'] ∧ Slot.ofText slot = .slash) ∨
    (slot = ['*'] ∧ Slot.ofText slot = .star) ∨
    (['*', '*'] <+: slot ∧ Slot.ofText slot = .varKeyword (afterStars slot)) ∨
    (['*'] <+: slot ∧ ¬ ['*', '*'] <+: slot ∧ slot ≠ ['*'] ∧
      Slot.ofText slot = .varPositional (afterStars slot)) ∨
    (slot ≠ [] ∧ slot ≠ ['/'] ∧ ¬ ['*'] <+: slot ∧
      Slot.ofText slot = .plain (afterStars slot)) := by
  fun_cases Slot.ofText slot with
  | case1 => exact .inl ⟨rfl, rfl⟩
  | case2 => exact .inr (.inl ⟨rfl, rfl⟩)
  | case3 => exact .inr (.inr (.inl ⟨rfl, rfl⟩))
  | case4 body => exact .inr (.inr (.inr (.inl ⟨⟨body, rfl⟩, rfl⟩)))
  | case5 body hne hstars =>
    -- a second star would have been the case before
    have hnone : ¬ ['*', '*'] <+: '*' :: body := by
      rintro ⟨more, hmore⟩
      simp only [List.cons_append, List.nil_append, List.cons.injEq, true_and] at hmore
      exact hstars more hmore.symm
    refine .inr (.inr (.inr (.inr (.inl ⟨⟨body, rfl⟩, hnone, ?_, ?_⟩))))
    · intro h
      simp only [List.cons.injEq, true_and] at h
      exact hne h
    · rw [afterStars]
      exact hstars
  | case6 _ hnil hslash hstar hstars hplain =>
    have hnone : ¬ ['*'] <+: slot := by
      rintro ⟨more, hmore⟩
      exact hplain more hmore.symm
    refine .inr (.inr (.inr (.inr (.inr ⟨hnil, hslash, hnone, ?_⟩))))
    rw [afterStars]
    · exact hstars
    · exact hplain

theorem ofText_plain {body : List Char} (hne : body ≠ []) (hslash : body ≠ ['/'])
    (hstar : ¬ ['*'] <+: body) : Slot.ofText body = .plain body := by
  fun_cases Slot.ofText body with
  | case1 => exact absurd rfl hne
  | case2 => exact absurd rfl hslash
  | case3 => exact absurd ⟨[], rfl⟩ hstar
  | case4 rest => exact absurd ⟨'*' :: rest, rfl⟩ hstar
  | case5 rest => exact absurd ⟨rest, rfl⟩ hstar
  | case6 => rfl

theorem ofText_varPositional {body : List Char} (hne : body ≠ []) (hstar : ¬ ['*'] <+: body) :
    Slot.ofText ('*' :: body) = .varPositional body := by
  cases body with
  | nil => exact absurd rfl hne
  | cons c rest =>
    have hc : c ≠ '*' := by
      rintro rfl
      exact hstar ⟨rest, rfl⟩
    simp [Slot.ofText, hc]

/-- Whether a text has a name before its first colon or equals sign on top. -/
def HasName (body : List Char) : Prop :=
  ∃ name rest, body = name ++ rest ∧ Nested name ∧ (∀ mark ∈ [':', '='], ¬ OnTop mark name) ∧
    (∀ mark ∈ rest.head?, mark ∈ [':', '=']) ∧ ¬ AllBlank name

theorem exists_parts_of_name {name rest : List Char} (h : Nested (name ++ rest))
    (hname : Nested name) (hfree : ∀ mark ∈ [':', '='], ¬ OnTop mark name)
    (hrest : ∀ mark ∈ rest.head?, mark ∈ [':', '=']) :
    ∃ parts : Parts, parts.text = name ++ rest ∧ parts.IsCut ∧ parts.name = name := by
  cases rest with
  | nil =>
    exact ⟨⟨name, none, none⟩, by simp [Parts.text, marked],
      ⟨hname, hfree, by simp, by simp, by simp⟩, rfl⟩
  | cons mark after =>
    -- Behind a colon there may be an equals sign still; behind an equals sign nothing is cut.
    have hmark := hrest mark rfl
    have hafter := h.of_append hname
    simp only [List.mem_cons, List.not_mem_nil, or_false] at hmark
    rcases hmark with rfl | rfl
    · rw [nested_cons_iff rfl] at hafter
      obtain ⟨type, value, rfl, htype, htypeFree, hvalue⟩ :=
        exists_marked '=' rfl hafter
      exact ⟨⟨name, some type, value⟩, by simp [Parts.text, marked],
        ⟨hname, hfree, by simpa using htype, by simpa using htypeFree, hvalue⟩, rfl⟩
    · rw [nested_cons_iff rfl] at hafter
      exact ⟨⟨name, none, some after⟩, by simp [Parts.text, marked],
        ⟨hname, hfree, by simp, by simp, by simpa using hafter⟩, rfl⟩

theorem exists_readParameter_iff {body : List Char} (h : Nested body) (kind : ParameterKind) :
    (∃ p, readParameter kind body = some p) ↔ HasName body := by
  constructor
  · rintro ⟨p, hp⟩
    -- The name is the first of the parts, and a mark begins each of the others.
    obtain ⟨parts, rfl, hcut⟩ := exists_parts h
    rw [readParameter_text kind hcut] at hp
    refine ⟨parts.name, marked ':' parts.type ++ marked '=' parts.value,
      by rw [Parts.text, List.append_assoc], hcut.name_nested, hcut.name_free, ?_, ?_⟩
    · cases parts.type <;> cases parts.value <;> simp [marked]
    · intro hblank
      simp [(trim_eq_nil_iff parts.name).mpr hblank] at hp
  · rintro ⟨name, rest, rfl, hname, hfree, hrest, hne⟩
    obtain ⟨parts, htext, hcut, rfl⟩ := exists_parts_of_name h hname hfree hrest
    rw [← trim_eq_nil_iff] at hne
    rw [← htext, readParameter_text kind hcut, if_neg (by simpa using hne)]
    exact ⟨_, rfl⟩

/-! ## 2. Steps and runs -/

/-- The kind of a plain parameter, as long as no slash follows. -/
def plainKind (keywordOnly : Bool) : ParameterKind :=
  if keywordOnly then .keywordOnly else .positionalOrKeyword

namespace Reading

/-- The state behind a slot. -/
def Next (r : Reading) : Slot → Reading → Prop
  | .blank, _ => False
  | .slash, next =>
      r.closed = false ∧ r.slashed = false ∧ r.keywordOnly = false ∧ r.parameters ≠ [] ∧
        next = { r with
          parameters := r.parameters.map ({ · with kind := .positionalOnly })
          slashed := true }
  | .star, next => r.closed = false ∧ next = { r with keywordOnly := true }
  | .varKeyword body, next =>
      r.closed = false ∧ ∃ p, readParameter .varKeyword body = some p ∧
        next = { r with parameters := r.parameters ++ [p], closed := true }
  | .varPositional body, next =>
      r.closed = false ∧ ∃ p, readParameter .varPositional body = some p ∧
        next = { r with parameters := r.parameters ++ [p], keywordOnly := true }
  | .plain body, next =>
      r.closed = false ∧ ∃ p, readParameter (plainKind r.keywordOnly) body = some p ∧
        next = { r with parameters := r.parameters ++ [p] }

theorem add_eq_ok_iff (r next : Reading) (position : Nat) (kind : ParameterKind)
    (body : List Char) :
    r.add position kind body = .ok next ↔
      ∃ p, readParameter kind body = some p ∧
        next = { r with
          parameters := r.parameters ++ [p]
          keywordOnly := r.keywordOnly || kind == .varPositional
          closed := r.closed || kind == .varKeyword } := by
  rw [add]
  cases readParameter kind body with
  | none => simp
  | some p =>
    simp only [Except.ok.injEq, Option.some.injEq, exists_eq_left']
    exact eq_comm

theorem take_eq_ok_iff (r next : Reading) (position : Nat) (slot : Slot) :
    r.take position slot = .ok next ↔ r.Next slot next := by
  -- Behind a double star no slot can be read, whatever it is.
  cases hclosed : r.closed
  · cases slot with
    | blank => simp [take, Next]
    | slash =>
      rw [take, Next]
      simp only [hclosed, Bool.false_or, true_and]
      split
      · rename_i hcond
        simp only [reduceCtorEq, false_iff]
        rintro ⟨hslashed, hkeyword, hne, -⟩
        simp [hslashed, hkeyword, hne] at hcond
      · rename_i hcond
        simp only [Bool.or_eq_true, not_or, Bool.not_eq_true, List.isEmpty_eq_false_iff] at hcond
        simp only [Except.ok.injEq, hcond, ne_eq, not_false_eq_true, true_and]
        exact eq_comm
    | star =>
      simp only [take, Next, hclosed, Bool.false_eq_true, if_false, Except.ok.injEq, true_and]
      exact eq_comm
    | varKeyword body =>
      have hkind : (ParameterKind.varKeyword == .varPositional) = false := rfl
      simp [take, Next, hclosed, add_eq_ok_iff, hkind]
    | varPositional body =>
      have hkind : (ParameterKind.varPositional == .varKeyword) = false := rfl
      simp [take, Next, hclosed, add_eq_ok_iff, hkind]
    | plain body =>
      have hpositional : (plainKind r.keywordOnly == .varPositional) = false := by
        cases r.keywordOnly <;> rfl
      have hkeyword : (plainKind r.keywordOnly == .varKeyword) = false := by
        cases r.keywordOnly <;> rfl
      rw [take, if_neg (by simp [hclosed]), ← plainKind, add_eq_ok_iff, Next]
      simp [hclosed, hpositional, hkeyword]
  · cases slot <;> simp [take, Next, hclosed]

/-- The state behind a run of slots. -/
def Reads (r : Reading) : List (List Char) → Reading → Prop
  | [], last => last = r
  | slot :: slots, last => ∃ next, r.Next (.ofText slot) next ∧ next.Reads slots last

theorem takeAll_eq_ok_iff (r last : Reading) (position : Nat) (texts : List (List Char)) :
    r.takeAll position texts = .ok last ↔ r.Reads (texts.map trim) last := by
  induction texts generalizing r position with
  | nil =>
    simp only [takeAll, List.map_nil, Reads, Except.ok.injEq]
    exact eq_comm
  | cons text texts ih =>
    simp only [takeAll, List.map_cons, Reads, bind, Except.bind]
    cases htake : r.take position (.ofText (trim text)) with
    | error fault =>
      simp only [reduceCtorEq, false_iff, not_exists, not_and]
      intro next hnext
      rw [← take_eq_ok_iff r next position, htake] at hnext
      exact absurd hnext (by simp)
    | ok next =>
      rw [show r.Next (.ofText (trim text)) = fun other => other = next from
        funext fun other => by
          rw [← take_eq_ok_iff r other position, htake, Except.ok.injEq]
          exact propext eq_comm]
      simp only [exists_eq_left]
      exact ih next (position + 1)

theorem reads_append_iff (r last : Reading) (front back : List (List Char)) :
    r.Reads (front ++ back) last ↔ ∃ next, r.Reads front next ∧ next.Reads back last := by
  induction front generalizing r with
  | nil => simp [Reads]
  | cons slot front ih =>
    simp only [List.cons_append, Reads, ih]
    constructor
    · rintro ⟨first, hfirst, next, hnext, hlast⟩
      exact ⟨next, ⟨first, hfirst, hnext⟩, hlast⟩
    · rintro ⟨next, ⟨first, hfirst, hnext⟩, hlast⟩
      exact ⟨first, hfirst, next, hnext, hlast⟩

end Reading

/-! ## 3. What a run keeps of the slots -/

theorem not_star_iff_of_not_star {slot : List Char} (h : ¬ ['*'] <+: slot) :
    ¬ ['*', '*'] <+: slot ∧ slot ≠ ['*'] := by
  refine ⟨?_, ?_⟩
  · rintro ⟨more, rfl⟩
    exact h ⟨'*' :: more, rfl⟩
  · rintro rfl
    exact h ⟨[], rfl⟩

theorem ne_slash_of_star {slot : List Char} (h : ['*'] <+: slot) : slot ≠ ['/'] := by
  rintro rfl
  simp at h

theorem star_of_double {slot : List Char} (h : ['*', '*'] <+: slot) :
    ['*'] <+: slot ∧ slot ≠ ['*'] := by
  obtain ⟨more, rfl⟩ := h
  exact ⟨⟨'*' :: more, rfl⟩, by simp⟩

/-- What a state says of the slots that led to it. -/
structure Reading.Knows (r : Reading) (slots : List (List Char)) : Prop where
  keywordOnly : r.keywordOnly = true ↔ ∃ slot ∈ slots, ['*'] <+: slot ∧ ¬ ['*', '*'] <+: slot
  slashed : r.slashed = true ↔ ['/'] ∈ slots
  closed : r.closed = true ↔ ∃ slot ∈ slots, ['*', '*'] <+: slot
  parameters : r.parameters = [] ↔ ∀ slot ∈ slots, slot = ['/'] ∨ slot = ['*']

theorem Reading.knows_start : Reading.start.Knows [] := by
  constructor <;> simp [Reading.start]

theorem exists_mem_concat_iff {P : List Char → Prop} (slots : List (List Char)) (slot : List Char) :
    (∃ other ∈ slots ++ [slot], P other) ↔ (∃ other ∈ slots, P other) ∨ P slot := by
  simp [or_and_right, exists_or]

theorem forall_mem_concat_iff {P : List Char → Prop} (slots : List (List Char)) (slot : List Char) :
    (∀ other ∈ slots ++ [slot], P other) ↔ (∀ other ∈ slots, P other) ∧ P slot := by
  rw [List.forall_mem_append, List.forall_mem_singleton]

theorem Reading.Knows.next {r next : Reading} {slots : List (List Char)} {slot : List Char}
    (hr : r.Knows slots) (h : r.Next (.ofText slot) next) : next.Knows (slots ++ [slot]) := by
  obtain ⟨hkeyword, hslashed, hclosed, hparameters⟩ := hr
  -- each field is a question about all slots, and the new one adds its own answer
  have hfields : next.keywordOnly =
        (r.keywordOnly || decide (['*'] <+: slot ∧ ¬ ['*', '*'] <+: slot)) ∧
      next.slashed = (r.slashed || decide (slot = ['/'])) ∧
      next.closed = (r.closed || decide (['*', '*'] <+: slot)) ∧
      (next.parameters = [] ↔ r.parameters = [] ∧ (slot = ['/'] ∨ slot = ['*'])) := by
    rcases ofText_cases slot with ⟨rfl, htext⟩ | ⟨rfl, htext⟩ | ⟨rfl, htext⟩ | ⟨hdouble, htext⟩ |
      ⟨hstar, hsingle, hne, htext⟩ | ⟨-, hslash, hstar, htext⟩ <;> rw [htext] at h
    · exact h.elim
    · obtain ⟨-, -, -, -, rfl⟩ := h
      simp
    · obtain ⟨-, rfl⟩ := h
      simp
    · obtain ⟨-, p, -, rfl⟩ := h
      obtain ⟨hstar, hne⟩ := star_of_double hdouble
      simp [hdouble, hstar, hne, ne_slash_of_star hstar]
    · obtain ⟨-, p, -, rfl⟩ := h
      simp [hstar, hsingle, hne, ne_slash_of_star hstar]
    · obtain ⟨-, p, -, rfl⟩ := h
      obtain ⟨hdouble, hne⟩ := not_star_iff_of_not_star hstar
      simp [hdouble, hstar, hne, hslash]
  obtain ⟨hkeyword', hslashed', hclosed', hparameters'⟩ := hfields
  refine ⟨?_, ?_, ?_, ?_⟩
  · rw [hkeyword', Bool.or_eq_true, decide_eq_true_eq, hkeyword, exists_mem_concat_iff]
  · rw [hslashed', Bool.or_eq_true, decide_eq_true_eq, hslashed, List.mem_append,
      List.mem_singleton, eq_comm]
  · rw [hclosed', Bool.or_eq_true, decide_eq_true_eq, hclosed, exists_mem_concat_iff]
  · rw [hparameters', hparameters, forall_mem_concat_iff]

theorem Reading.Knows.run {r last : Reading} {before slots : List (List Char)}
    (hr : r.Knows before) (h : r.Reads slots last) : last.Knows (before ++ slots) := by
  induction slots generalizing r before with
  | nil =>
    rw [List.append_nil]
    exact h ▸ hr
  | cons slot slots ih =>
    obtain ⟨next, hnext, hlast⟩ := h
    rw [List.append_cons]
    exact ih (hr.next hnext) hlast

/-! ## 4. Which slots can be read -/

theorem exists_state_iff (opened : Prop) (found : Option Parameter) (state : Parameter → Reading) :
    (∃ next, opened ∧ ∃ p, found = some p ∧ next = state p) ↔ opened ∧ ∃ p, found = some p := by
  constructor
  · rintro ⟨_, hopened, p, hp, -⟩
    exact ⟨hopened, p, hp⟩
  · rintro ⟨hopened, p, hp⟩
    exact ⟨state p, hopened, p, hp, rfl⟩

/-- Whether a slot may stand behind others. -/
structure Fits (before : List (List Char)) (slot : List Char) : Prop where
  ne_nil : slot ≠ []
  opened : ∀ earlier ∈ before, ¬ ['*', '*'] <+: earlier
  slash : slot = ['/'] →
    ['/'] ∉ before ∧ before ≠ [] ∧ ∀ earlier ∈ before, ¬ ['*'] <+: earlier
  named : slot ≠ ['/'] → slot ≠ ['*'] → HasName (afterStars slot)

namespace Reading.Knows

variable {r : Reading} {before : List (List Char)} (hr : r.Knows before)

include hr

theorem closed_eq_false_iff :
    r.closed = false ↔ ∀ earlier ∈ before, ¬ ['*', '*'] <+: earlier := by
  rw [← Bool.not_eq_true, hr.closed]
  simp

theorem keywordOnly_eq_false_iff (hopen : ∀ earlier ∈ before, ¬ ['*', '*'] <+: earlier) :
    r.keywordOnly = false ↔ ∀ earlier ∈ before, ¬ ['*'] <+: earlier := by
  rw [← Bool.not_eq_true, hr.keywordOnly]
  constructor
  · intro h earlier hmem hstar
    exact h ⟨earlier, hmem, hstar, hopen earlier hmem⟩
  · rintro h ⟨earlier, hmem, hstar, -⟩
    exact h earlier hmem hstar

/-- A slash may follow where a parameter does not come from a star or stand behind another. -/
theorem exists_slash_iff :
    (∃ next, r.Next .slash next) ↔
      (∀ earlier ∈ before, ¬ ['*', '*'] <+: earlier) ∧
        ['/'] ∉ before ∧ before ≠ [] ∧ ∀ earlier ∈ before, ¬ ['*'] <+: earlier := by
  simp only [Reading.Next, exists_and_left, exists_eq, and_true]
  rw [hr.closed_eq_false_iff]
  refine and_congr_right fun hopen => ?_
  rw [← Bool.not_eq_true, hr.slashed, hr.keywordOnly_eq_false_iff hopen, ne_eq, hr.parameters]
  refine and_congr_right fun hslash => ?_
  constructor
  · rintro ⟨hstar, hsome⟩
    refine ⟨?_, hstar⟩
    rintro rfl
    exact hsome (by simp)
  · rintro ⟨hne, hstar⟩
    refine ⟨hstar, fun hall => ?_⟩
    -- Some slot comes before, and it is no marker, so it has given a parameter.
    obtain ⟨earlier, hmem⟩ := List.exists_mem_of_ne_nil before hne
    rcases hall earlier hmem with rfl | rfl
    · exact hslash hmem
    · exact hstar _ hmem ⟨[], rfl⟩

theorem exists_next_iff {slot : List Char} (hslot : Nested slot) :
    (∃ next, r.Next (.ofText slot) next) ↔ Fits before slot := by
  have hname := fun kind => exists_readParameter_iff (nested_afterStars hslot) kind
  -- slots of parameters differ in nothing but the kind
  have hparameter : ∀ kind, slot ≠ [] → slot ≠ ['/'] → slot ≠ ['*'] →
      ((r.closed = false ∧ ∃ p, readParameter kind (afterStars slot) = some p) ↔
        Fits before slot) := by
    intro kind hnil hslash hstar
    rw [hname, hr.closed_eq_false_iff]
    constructor
    · rintro ⟨hopen, hnamed⟩
      exact ⟨hnil, hopen, fun h => absurd h hslash, fun _ _ => hnamed⟩
    · rintro ⟨-, hopen, -, hnamed⟩
      exact ⟨hopen, hnamed hslash hstar⟩
  rcases ofText_cases slot with ⟨rfl, htext⟩ | ⟨rfl, htext⟩ | ⟨rfl, htext⟩ | ⟨hdouble, htext⟩ |
    ⟨hstar, hsingle, hne, htext⟩ | ⟨hnil, hslash, hstar, htext⟩ <;> rw [htext]
  · simp only [Reading.Next, exists_false, false_iff]
    exact fun h => h.ne_nil rfl
  · rw [hr.exists_slash_iff]
    constructor
    · rintro ⟨hopen, hslash⟩
      exact ⟨by simp, hopen, fun _ => hslash, fun h => absurd rfl h⟩
    · rintro ⟨-, hopen, hslash, -⟩
      exact ⟨hopen, hslash rfl⟩
  · simp only [Reading.Next, exists_and_left, exists_eq, and_true]
    rw [hr.closed_eq_false_iff]
    constructor
    · intro hopen
      exact ⟨by simp, hopen, by simp, fun _ h => absurd rfl h⟩
    · exact fun h => h.opened
  · obtain ⟨hstar, hne⟩ := star_of_double hdouble
    rw [← hparameter .varKeyword (by rintro rfl; simp at hdouble) (ne_slash_of_star hstar) hne]
    exact exists_state_iff _ _ _
  · rw [← hparameter .varPositional (by rintro rfl; simp at hstar) (ne_slash_of_star hstar) hne]
    exact exists_state_iff _ _ _
  · rw [← hparameter (plainKind r.keywordOnly) hnil hslash (not_star_iff_of_not_star hstar).2]
    exact exists_state_iff _ _ _

end Reading.Knows

end ModuleSurface.Signature
