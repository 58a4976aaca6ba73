import Mathlib.Data.List.Basic
import ModuleSurface.Signature.Nesting

/-!
# Nested — texts whose brackets match and whose quotes close

`Nested` is the grammar of these texts, said without the reading that recognises them.  The
reading accepts exactly this grammar (`nested_iff_run`): from left to right because a nested text
leaves the awaited brackets alone, from right to left because the state of a reading says what is
still to come (`Nesting.Awaits`).
-/

namespace ModuleSurface.Signature

/-! ## 1. The grammar -/

/-- Whether a character is neither a bracket nor a quote. -/
def isOrdinary (c : Char) : Bool :=
  !isQuote c && (closer? c).isNone && !isCloser c

/-- What may stand between two quotes: a backslash takes the next character with it. -/
inductive Quotation (quote : Char) : List Char → Prop
  | nil : Quotation quote []
  | char {c : Char} {rest : List Char} (hquote : c ≠ quote) (hescape : c ≠ '\\')
      (hrest : Quotation quote rest) : Quotation quote (c :: rest)
  | escape {c : Char} {rest : List Char} (hrest : Quotation quote rest) :
      Quotation quote ('\\' :: c :: rest)

/-- Texts in which brackets match in kind and order and quotes close. -/
inductive Nested : List Char → Prop
  | nil : Nested []
  | char {c : Char} {rest : List Char} (hc : isOrdinary c = true) (hrest : Nested rest) :
      Nested (c :: rest)
  | group {opening closing : Char} {inner rest : List Char} (hpair : closer? opening = some closing)
      (hinner : Nested inner) (hrest : Nested rest) :
      Nested (opening :: inner ++ closing :: rest)
  | quoted {quote : Char} {body rest : List Char} (hquote : isQuote quote = true)
      (hbody : Quotation quote body) (hrest : Nested rest) :
      Nested (quote :: body ++ quote :: rest)

/-- Whether a character occurs in a text outside all brackets and quotes. -/
def OnTop (c : Char) (text : List Char) : Prop :=
  ∃ before after, text = before ++ c :: after ∧ Nested before

/-! ## 2. The steps of a reading -/

namespace Nesting

def run (n : Nesting) : List Char → Option Nesting
  | [] => some n
  | c :: text => (n.step c).bind fun next => next.run text

@[simp] theorem run_nil (n : Nesting) : n.run [] = some n := rfl

theorem run_cons (n : Nesting) (c : Char) (text : List Char) :
    n.run (c :: text) = (n.step c).bind fun next => next.run text := rfl

theorem run_append (n : Nesting) (left right : List Char) :
    n.run (left ++ right) = (n.run left).bind fun next => next.run right := by
  induction left generalizing n with
  | nil => rfl
  | cons c left ih =>
    rw [List.cons_append, run_cons, run_cons]
    cases n.step c with
    | none => rfl
    | some next => exact ih next

theorem isTop_iff (n : Nesting) : n.isTop = true ↔ n = start := by
  obtain ⟨closers, quoting⟩ := n
  simp [isTop, start]

theorem step_ordinary {c : Char} (hc : isOrdinary c = true) (closers : List Char) :
    step ⟨closers, .outside⟩ c = some ⟨closers, .outside⟩ := by
  simp only [isOrdinary, Bool.and_eq_true, Bool.not_eq_true', Option.isNone_iff_eq_none] at hc
  obtain ⟨⟨hquote, hopen⟩, hclose⟩ := hc
  simp [step, stepOutside, hquote, hopen, hclose]

theorem step_quote {c : Char} (hc : isQuote c = true) (closers : List Char) :
    step ⟨closers, .outside⟩ c = some ⟨closers, .inside c⟩ := by
  simp [step, stepOutside, hc]

def quotingBehind (quote c : Char) : Quoting :=
  if c = '\\' then .escaping quote else if c = quote then .outside else .inside quote

theorem step_inside (closers : List Char) (quote c : Char) :
    step ⟨closers, .inside quote⟩ c = some ⟨closers, quotingBehind quote c⟩ := by
  simp only [step, quotingBehind]
  split
  · rfl
  · split <;> rfl

theorem closer?_eq_some_iff (opening closing : Char) :
    closer? opening = some closing ↔
      opening = '(' ∧ closing = ')' ∨ opening = '[' ∧ closing = ']' ∨
        opening = '{' ∧ closing = '}' := by
  unfold closer?
  split <;> simp_all [eq_comm]

theorem step_open {opening closing : Char} (hpair : closer? opening = some closing)
    (closers : List Char) :
    step ⟨closers, .outside⟩ opening = some ⟨closing :: closers, .outside⟩ := by
  rcases (closer?_eq_some_iff _ _).mp hpair with ⟨rfl, rfl⟩ | ⟨rfl, rfl⟩ | ⟨rfl, rfl⟩ <;> rfl

theorem step_close {opening closing : Char} (hpair : closer? opening = some closing)
    (closers : List Char) :
    step ⟨closing :: closers, .outside⟩ closing = some ⟨closers, .outside⟩ := by
  rcases (closer?_eq_some_iff _ _).mp hpair with ⟨rfl, rfl⟩ | ⟨rfl, rfl⟩ | ⟨rfl, rfl⟩ <;> rfl

theorem step_outside_cases {closers : List Char} {c : Char} {next : Nesting}
    (h : step ⟨closers, .outside⟩ c = some next) :
    (isQuote c = true ∧ next = ⟨closers, .inside c⟩) ∨
      (∃ closing, closer? c = some closing ∧ next = ⟨closing :: closers, .outside⟩) ∨
      (∃ outer, closers = c :: outer ∧ next = ⟨outer, .outside⟩ ∧
        ∀ others, step ⟨c :: others, .outside⟩ c = some ⟨others, .outside⟩) ∨
      (isOrdinary c = true ∧ next = ⟨closers, .outside⟩) := by
  -- The definition asks for a quote first, then for an opening and last for a closing bracket.
  by_cases hquote : isQuote c = true
  · rw [step_quote hquote, Option.some.injEq] at h
    exact .inl ⟨hquote, h.symm⟩
  cases hopen : closer? c with
  | some closing =>
    rw [step_open hopen, Option.some.injEq] at h
    exact .inr (.inl ⟨closing, rfl, h.symm⟩)
  | none =>
    simp only [step, stepOutside, hquote, hopen, Bool.false_eq_true, if_false] at h
    by_cases hclose : isCloser c = true
    · rw [if_pos hclose] at h
      cases closers with
      | nil => simp at h
      | cons awaited outer =>
        -- A bracket closes the innermost one only.
        by_cases heq : awaited = c
        · simp only [heq, if_true, Option.some.injEq] at h
          refine .inr (.inr (.inl ⟨outer, by rw [heq], h.symm, fun others => ?_⟩))
          simp [step, stepOutside, hquote, hopen, hclose]
        · simp [heq] at h
    · rw [if_neg hclose, Option.some.injEq] at h
      refine .inr (.inr (.inr ⟨?_, h.symm⟩))
      simp [isOrdinary, hquote, hopen, hclose]

end Nesting

theorem isQuote_iff (c : Char) : isQuote c = true ↔ c = '\'' ∨ c = '"' := by
  simp [isQuote]

theorem quote_ne_backslash {quote : Char} (h : isQuote quote = true) : quote ≠ '\\' := by
  rcases (isQuote_iff quote).mp h with rfl | rfl <;> decide

/-! ## 3. A nested text leaves the awaited brackets alone -/

open Nesting (start run_append run_cons)

theorem Quotation.run {quote : Char} {body : List Char} (h : Quotation quote body)
    (closers : List Char) :
    Nesting.run ⟨closers, .inside quote⟩ body = some ⟨closers, .inside quote⟩ := by
  induction h with
  | nil => rfl
  | char hne hescape _ ih => simpa [run_cons, Nesting.step, hne, hescape] using ih
  | escape _ ih => simpa [run_cons, Nesting.step] using ih

theorem Nested.run {text : List Char} (h : Nested text) (closers : List Char) :
    Nesting.run ⟨closers, .outside⟩ text = some ⟨closers, .outside⟩ := by
  induction h generalizing closers with
  | nil => rfl
  | char hc _ ih =>
    rw [run_cons, Nesting.step_ordinary hc, Option.bind_some]
    exact ih closers
  | group hpair _ _ ihinner ihrest =>
    rw [List.cons_append, run_cons, Nesting.step_open hpair, Option.bind_some, run_append,
      ihinner, Option.bind_some, run_cons, Nesting.step_close hpair, Option.bind_some]
    exact ihrest closers
  | @quoted quote body rest hquote hbody _ ih =>
    -- The quote that opened the string is no escape, so the same character closes it.
    have hclose : Nesting.step ⟨closers, .inside quote⟩ quote = some ⟨closers, .outside⟩ := by
      simp [Nesting.step, quote_ne_backslash hquote]
    rw [List.cons_append, run_cons, Nesting.step_quote hquote, Option.bind_some, run_append,
      hbody.run, Option.bind_some, run_cons, hclose, Option.bind_some]
    exact ih closers

/-! ## 4. The state of a reading says what is still to come -/

/-- The texts that close the given brackets, innermost first, and are nested besides. -/
def Closes : List Char → List Char → Prop
  | [], text => Nested text
  | closing :: outer, text =>
      ∃ inner rest, text = inner ++ closing :: rest ∧ Nested inner ∧ Closes outer rest

/-- The texts that close a quotation and then the given brackets. -/
def ClosesQuote (quote : Char) (closers text : List Char) : Prop :=
  ∃ body rest, text = body ++ quote :: rest ∧ Quotation quote body ∧ Closes closers rest

/-- The texts that lead from a state back to the top. -/
def Nesting.Awaits (n : Nesting) (text : List Char) : Prop :=
  match n.quoting with
  | .outside => Closes n.closers text
  | .inside quote => ClosesQuote quote n.closers text
  | .escaping quote => ∃ c rest, text = c :: rest ∧ ClosesQuote quote n.closers rest

/-- What may stand before every nested text may stand before closing brackets too. -/
theorem Closes.prepend (front : List Char) (hfront : ∀ text, Nested text → Nested (front ++ text))
    {closers text : List Char} (h : Closes closers text) : Closes closers (front ++ text) := by
  cases closers with
  | nil => exact hfront text h
  | cons closing outer =>
    obtain ⟨inner, rest, rfl, hinner, hrest⟩ := h
    exact ⟨front ++ inner, rest, by rw [List.append_assoc], hfront inner hinner, hrest⟩

theorem Nesting.awaits_of_step {n next : Nesting} {c : Char} {text : List Char}
    (hstep : n.step c = some next) (h : next.Awaits text) : n.Awaits (c :: text) := by
  obtain ⟨closers, quoting⟩ := n
  cases quoting with
  | outside =>
    rcases step_outside_cases hstep with ⟨hquote, rfl⟩ | ⟨closing, hopen, rfl⟩ |
      ⟨outer, rfl, rfl, -⟩ | ⟨hc, rfl⟩
    · -- A quote begins a string that the rest of the text closes.
      obtain ⟨body, rest, rfl, hbody, hrest⟩ := h
      have hfront := hrest.prepend (c :: body ++ [c]) fun text htext => by
        simpa using Nested.quoted hquote hbody htext
      simpa [Awaits] using hfront
    · -- An opening bracket begins a group that the rest of the text closes.
      obtain ⟨inner, rest, rfl, hinner, hrest⟩ := h
      have hfront := hrest.prepend (c :: inner ++ [closing]) fun text htext => by
        simpa using Nested.group hopen hinner htext
      simpa [Awaits] using hfront
    · -- A closing bracket is the awaited one, with nothing left before it.
      exact ⟨[], text, rfl, .nil, h⟩
    · exact Closes.prepend [c] (fun text htext => .char hc htext) h
  | inside quote =>
    by_cases hescape : c = '\\'
    · simp only [step, hescape, if_true, Option.some.injEq] at hstep
      subst hstep
      obtain ⟨escaped, tail, rfl, body, rest, rfl, hbody, hrest⟩ := h
      exact ⟨'\\' :: escaped :: body, rest, by rw [hescape]; rfl, .escape hbody, hrest⟩
    by_cases hquote : c = quote
    · have hne : quote ≠ '\\' := fun heq => hescape (hquote.trans heq)
      simp only [step, hquote, hne, if_true, if_false, Option.some.injEq] at hstep
      subst hstep
      exact ⟨[], text, by rw [hquote]; rfl, .nil, h⟩
    · simp only [step, hescape, hquote, if_false, Option.some.injEq] at hstep
      subst hstep
      obtain ⟨body, rest, rfl, hbody, hrest⟩ := h
      exact ⟨c :: body, rest, rfl, .char hquote hescape hbody, hrest⟩
  | escaping quote =>
    simp only [step, Option.some.injEq] at hstep
    subst hstep
    exact ⟨c, text, rfl, h⟩

-- The induction is on the text; what is still awaited is the invariant that it carries backwards.
theorem Nesting.awaits_of_run {n : Nesting} {text : List Char} (h : n.run text = some start) :
    n.Awaits text := by
  induction text generalizing n with
  | nil =>
    simp only [run_nil, Option.some.injEq] at h
    subst h
    exact Nested.nil
  | cons c text ih =>
    rw [run_cons, Option.bind_eq_some_iff] at h
    obtain ⟨next, hstep, hrun⟩ := h
    exact awaits_of_step hstep (ih hrun)

/-- The reading recognises exactly the nested texts. -/
theorem nested_iff_run (text : List Char) : Nested text ↔ start.run text = some start :=
  ⟨fun h => h.run [], fun h => Nesting.awaits_of_run h⟩

instance : DecidablePred Nested :=
  fun text => decidable_of_iff _ (nested_iff_run text).symm

/-! ## 5. Quotes in the state of a reading -/

/-- Whether the quote that a state stands behind, if any, is one. -/
def Nesting.IsSound (n : Nesting) : Prop :=
  ∀ quote, n.quoting = .inside quote ∨ n.quoting = .escaping quote → isQuote quote = true

theorem Nesting.isSound_start : start.IsSound := by
  intro quote h
  simp [start] at h

theorem Nesting.IsSound.step {n next : Nesting} {c : Char} (hn : n.IsSound)
    (h : n.step c = some next) : next.IsSound := by
  obtain ⟨closers, quoting⟩ := n
  intro quote hnext
  cases quoting with
  | outside =>
    -- Only a quote leads into a string.
    rcases step_outside_cases h with ⟨hquote, rfl⟩ | ⟨_, _, rfl⟩ | ⟨_, _, rfl, _⟩ | ⟨_, rfl⟩
    · simp only [Quoting.inside.injEq, reduceCtorEq, or_false] at hnext
      rwa [← hnext]
    all_goals simp at hnext
  | inside other =>
    refine hn quote (.inl ?_)
    rw [Nesting.step_inside, Option.some.injEq] at h
    subst h
    simp only [Nesting.quotingBehind] at hnext
    split at hnext
    · simpa using hnext
    · split at hnext
      · simp at hnext
      · simpa using hnext
  | escaping other =>
    refine hn quote ?_
    simp only [Nesting.step, Option.some.injEq] at h
    subst h
    simpa using hnext

theorem Nesting.IsSound.run {n last : Nesting} {text : List Char} (hn : n.IsSound)
    (h : n.run text = some last) : last.IsSound := by
  induction text generalizing n with
  | nil =>
    simp only [run_nil, Option.some.injEq] at h
    exact h ▸ hn
  | cons c text ih =>
    rw [run_cons, Option.bind_eq_some_iff] at h
    obtain ⟨next, hstep, hrun⟩ := h
    exact ih (hn.step hstep) hrun

/-- An ordinary character does not lead to the top. -/
theorem Nesting.eq_start_of_step_ordinary {n : Nesting} {c : Char} (hn : n.IsSound)
    (hc : isOrdinary c = true) (h : n.step c = some start) : n = start := by
  obtain ⟨closers, quoting⟩ := n
  cases quoting with
  | outside =>
    rw [step_ordinary hc, Option.some.injEq] at h
    exact h
  | inside quote =>
    -- Inside a string only the quote itself leads out, and a quote is not ordinary.
    have hne : c ≠ quote := by
      rintro rfl
      have hquote := hn c (.inl rfl)
      simp [isOrdinary, hquote] at hc
    rw [step_inside, Option.some.injEq] at h
    simp only [start, Nesting.mk.injEq, quotingBehind, hne, if_false] at h
    split at h <;> simp at h
  | escaping quote => simp [step, start] at h

/-! ## 6. Putting nested texts together and cutting them -/

theorem Nested.append {left right : List Char} (hleft : Nested left) (hright : Nested right) :
    Nested (left ++ right) := by
  rw [nested_iff_run, run_append, (nested_iff_run left).mp hleft, Option.bind_some]
  exact (nested_iff_run right).mp hright

theorem Nested.of_append {left right : List Char} (h : Nested (left ++ right))
    (hleft : Nested left) : Nested right := by
  rw [nested_iff_run, run_append, (nested_iff_run left).mp hleft, Option.bind_some] at h
  exact (nested_iff_run right).mpr h

theorem nested_cons_iff {c : Char} (hc : isOrdinary c = true) (text : List Char) :
    Nested (c :: text) ↔ Nested text :=
  ⟨fun h => h.of_append (show Nested [c] from .char hc .nil), .char hc⟩

theorem nested_concat_iff {c : Char} (hc : isOrdinary c = true) (text : List Char) :
    Nested (text ++ [c]) ↔ Nested text := by
  constructor
  · intro h
    rw [nested_iff_run, run_append, Option.bind_eq_some_iff] at h
    obtain ⟨n, hrun, hlast⟩ := h
    -- The last step ends at the top, so it was taken there.
    rw [run_cons, Option.bind_eq_some_iff] at hlast
    obtain ⟨next, hstep, hnext⟩ := hlast
    simp only [Nesting.run_nil, Option.some.injEq] at hnext
    subst hnext
    have hn := Nesting.eq_start_of_step_ordinary (Nesting.isSound_start.run hrun) hc hstep
    rw [nested_iff_run, hrun, hn]
  · intro h
    exact h.append (.char hc .nil)

/-! ## 7. Characters on top -/

theorem not_onTop_nil (c : Char) : ¬ OnTop c [] := by
  rintro ⟨before, after, h, -⟩
  simp at h

theorem onTop_iff_exists_take (c : Char) (text : List Char) :
    OnTop c text ↔ ∃ i < text.length, text[i]? = some c ∧ Nested (text.take i) := by
  constructor
  · rintro ⟨before, after, rfl, hbefore⟩
    exact ⟨before.length, by simp, by simp, by simpa using hbefore⟩
  · rintro ⟨i, hi, hc, hbefore⟩
    refine ⟨text.take i, text.drop (i + 1), ?_, hbefore⟩
    rw [List.getElem?_eq_some_iff] at hc
    obtain ⟨-, rfl⟩ := hc
    rw [List.getElem_cons_drop, List.take_append_drop]

-- Places in the text are finitely many, splittings of it are not searched.
instance (c : Char) (text : List Char) : Decidable (OnTop c text) :=
  decidable_of_iff _ (onTop_iff_exists_take c text).symm

/-- Behind a nested text the same characters are on top as without it. -/
theorem onTop_append_iff {c : Char} {left : List Char} (hleft : Nested left) (right : List Char) :
    OnTop c (left ++ right) ↔ OnTop c left ∨ OnTop c right := by
  constructor
  · rintro ⟨before, after, heq, hbefore⟩
    -- The occurrence is to the right of the seam, on it, or to its left.
    rcases List.append_eq_append_iff.mp heq with ⟨middle, rfl, hright⟩ | ⟨middle, rfl, hafter⟩
    · exact .inr ⟨middle, after, hright, hbefore.of_append hleft⟩
    · cases middle with
      | nil =>
        rw [List.nil_append] at hafter
        exact .inr ⟨[], after, hafter.symm, .nil⟩
      | cons d middle =>
        simp only [List.cons_append, List.cons.injEq] at hafter
        obtain ⟨rfl, -⟩ := hafter
        exact .inl ⟨before, middle, rfl, hbefore⟩
  · rintro (⟨before, after, rfl, hbefore⟩ | ⟨before, after, rfl, hbefore⟩)
    · exact ⟨before, after ++ right, by simp, hbefore⟩
    · exact ⟨left ++ before, after, by simp, hleft.append hbefore⟩

theorem onTop_cons_iff {c d : Char} (hd : isOrdinary d = true) (text : List Char) :
    OnTop c (d :: text) ↔ c = d ∨ OnTop c text := by
  have hsingle : OnTop c [d] ↔ c = d := by
    constructor
    · rintro ⟨before, after, heq, -⟩
      have hmem : c ∈ [d] := by rw [heq]; simp
      exact List.mem_singleton.mp hmem
    · rintro rfl
      exact ⟨[], [], rfl, .nil⟩
  rw [← List.singleton_append, onTop_append_iff (.char hd .nil), hsingle]

end ModuleSurface.Signature
