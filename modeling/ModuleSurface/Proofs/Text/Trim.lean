import Mathlib.Data.List.DropRight
import ModuleSurface.Text.Blank

/-!
# Trim — what is left of a text without the blanks at its two ends

Trimming takes off exactly the blanks around a text: blanks that are put there do not matter
(`trim_append_left`, `trim_append_right`), and a text is its own trim if and only if neither its
first nor its last character is blank (`trim_eq_self_iff`).
-/

namespace ModuleSurface.Text

def AllBlank (text : List Char) : Prop :=
  ∀ c ∈ text, isBlank c = true

instance : DecidablePred AllBlank :=
  fun text => List.decidableBAll _ text

theorem allBlank_nil : AllBlank [] :=
  fun _ hc => absurd hc List.not_mem_nil

theorem allBlank_space : AllBlank [' '] := by
  intro c hc
  rw [List.mem_singleton.mp hc]
  decide

/-! ## 1. Blanks around a text -/

theorem trim_append_left {lead : List Char} (hlead : AllBlank lead) (text : List Char) :
    trim (lead ++ text) = trim text := by
  unfold trim trimLeft
  rw [List.dropWhile_append_of_pos hlead]

theorem trimRight_append {tail : List Char} (htail : AllBlank tail) (text : List Char) :
    trimRight (text ++ tail) = trimRight text := by
  unfold trimRight
  rw [List.reverse_append, List.dropWhile_append_of_pos]
  intro c hc
  exact htail c (List.mem_reverse.mp hc)

theorem trim_append_right {tail : List Char} (htail : AllBlank tail) (text : List Char) :
    trim (text ++ tail) = trim text := by
  unfold trim trimLeft
  rw [List.dropWhile_append]
  split
  · rename_i hempty
    rw [List.isEmpty_iff.mp hempty, List.dropWhile_eq_nil_iff.mpr htail]
  · exact trimRight_append htail _

theorem exists_trim (text : List Char) :
    ∃ lead tail, text = lead ++ trim text ++ tail ∧ AllBlank lead ∧ AllBlank tail := by
  refine ⟨text.takeWhile isBlank, (text.dropWhile isBlank).rtakeWhile isBlank, ?_, ?_, ?_⟩
  · have hright := List.rdropWhile_append_rtakeWhile (p := isBlank) (l := text.dropWhile isBlank)
    show text = _ ++ (text.dropWhile isBlank).rdropWhile isBlank ++ _
    rw [List.append_assoc, hright, List.takeWhile_append_dropWhile]
  · intro c hc
    exact List.mem_takeWhile_imp hc
  · intro c hc
    exact List.mem_rtakeWhile_imp hc

theorem isInfix_trim (text : List Char) : trim text <:+: text := by
  obtain ⟨lead, tail, htext, -, -⟩ := exists_trim text
  exact ⟨lead, tail, htext.symm⟩

theorem mem_of_mem_trim {c : Char} {text : List Char} (h : c ∈ trim text) : c ∈ text :=
  (isInfix_trim text).subset h

theorem trim_trim (text : List Char) : trim (trim text) = trim text := by
  obtain ⟨lead, tail, htext, hlead, htail⟩ := exists_trim text
  -- only the right side, for the text itself stands in its trim
  conv_rhs => rw [htext]
  rw [trim_append_right htail, trim_append_left hlead]

theorem trim_eq_nil_iff (text : List Char) : trim text = [] ↔ AllBlank text := by
  constructor
  · intro h
    obtain ⟨lead, tail, htext, hlead, htail⟩ := exists_trim text
    rw [h, List.append_nil] at htext
    rw [htext]
    intro c hc
    exact (List.mem_append.mp hc).elim (hlead c) (htail c)
  · intro h
    have := trim_append_left h []
    rwa [List.append_nil] at this

theorem isEmpty_trim_iff (text : List Char) : (trim text).isEmpty = true ↔ AllBlank text := by
  rw [List.isEmpty_iff, trim_eq_nil_iff]

theorem trim_cons_space (text : List Char) : trim (' ' :: text) = trim text :=
  trim_append_left allBlank_space text

/-! ## 2. Texts that are their own trim -/

theorem trim_eq_self_iff (text : List Char) :
    trim text = text ↔
      (∀ c, text.head? = some c → isBlank c = false) ∧
        ∀ c, text.getLast? = some c → isBlank c = false := by
  constructor
  · intro h
    constructor
    · intro c hc
      obtain ⟨rest, rfl⟩ := List.head?_eq_some_iff.mp hc
      -- without a blank first character the text would be a trim of something shorter
      by_contra hblank
      have hdrop := trim_append_left (show AllBlank [c] by simpa [AllBlank] using hblank) rest
      rw [List.singleton_append, h] at hdrop
      obtain ⟨lead, tail, hrest, -, -⟩ := exists_trim rest
      have hlength := congrArg List.length hrest
      rw [← hdrop] at hlength
      simp only [List.length_append, List.length_cons] at hlength
      omega
    · intro c hc
      obtain ⟨front, rfl⟩ := List.getLast?_eq_some_iff.mp hc
      by_contra hblank
      have hdrop := trim_append_right (show AllBlank [c] by simpa [AllBlank] using hblank) front
      rw [h] at hdrop
      obtain ⟨lead, tail, hfront, -, -⟩ := exists_trim front
      have hlength := congrArg List.length hfront
      rw [← hdrop] at hlength
      simp only [List.length_append, List.length_cons, List.length_nil] at hlength
      omega
  · rintro ⟨hhead, hlast⟩
    obtain ⟨lead, tail, htext, hlead, htail⟩ := exists_trim text
    have hleadNil : lead = [] := by
      cases lead with
      | nil => rfl
      | cons c more =>
        have hc := hhead c (by rw [htext]; rfl)
        rw [hlead c List.mem_cons_self] at hc
        exact absurd hc (by decide)
    have htailNil : tail = [] := by
      cases tail using List.reverseRecOn with
      | nil => rfl
      | append_singleton more c _ =>
        have hc := hlast c (by rw [htext, ← List.append_assoc, List.getLast?_concat])
        rw [htail c (by simp)] at hc
        exact absurd hc (by decide)
    rw [hleadNil, htailNil, List.nil_append, List.append_nil] at htext
    exact htext.symm

/-- A text that begins and ends with texts that are their own trim. -/
theorem trim_eq_self_of_ends {text left right : List Char} (hleft : trim left = left)
    (hright : trim right = right) (hne : left ≠ []) (hne' : right ≠ [])
    (hfront : left <+: text) (hback : right <:+ text) : trim text = text := by
  obtain ⟨more, hmore⟩ := hfront
  obtain ⟨less, hless⟩ := hback
  obtain ⟨hhead, -⟩ := (trim_eq_self_iff left).mp hleft
  obtain ⟨-, hlast⟩ := (trim_eq_self_iff right).mp hright
  refine (trim_eq_self_iff _).mpr ⟨?_, ?_⟩
  · intro c hc
    rw [← hmore, List.head?_append_of_ne_nil _ hne] at hc
    exact hhead c hc
  · intro c hc
    rw [← hless, List.getLast?_append_of_ne_nil _ hne'] at hc
    exact hlast c hc

/-- Behind a text that is its own trim only the blanks at the end are taken off. -/
theorem exists_trim_append {front : List Char} (hfront : trim front = front) (hne : front ≠ [])
    (back : List Char) :
    ∃ more, trim (front ++ back) = front ++ more ∧ more <+: back ∧ trim more = trim back := by
  obtain ⟨lead, tail, hback, hlead, htail⟩ := exists_trim back
  by_cases hblank : trim back = []
  · refine ⟨[], ?_, List.nil_prefix, by rw [hblank]; rfl⟩
    rw [trim_append_right ((trim_eq_nil_iff back).mp hblank), hfront, List.append_nil]
  · have hends : trim (front ++ (lead ++ trim back)) = front ++ (lead ++ trim back) :=
      trim_eq_self_of_ends hfront (trim_trim back) hne hblank (List.prefix_append _ _)
        ⟨front ++ lead, List.append_assoc ..⟩
    have hwhole : front ++ back = front ++ (lead ++ trim back) ++ tail := by
      rw [List.append_assoc, ← hback]
    refine ⟨lead ++ trim back, ?_, ⟨tail, hback.symm⟩, by rw [trim_append_left hlead, trim_trim]⟩
    rw [hwhole, trim_append_right htail, hends]

theorem mem_trim {c : Char} {text : List Char} (h : c ∈ text) (hc : isBlank c = false) :
    c ∈ trim text := by
  obtain ⟨lead, tail, htext, hlead, htail⟩ := exists_trim text
  rw [htext, List.mem_append, List.mem_append] at h
  have hnone : ∀ {blanks : List Char}, AllBlank blanks → c ∉ blanks := by
    intro blanks hblanks hmem
    rw [hblanks c hmem] at hc
    contradiction
  rcases h with (hmem | hmem) | hmem
  · exact absurd hmem (hnone hlead)
  · exact hmem
  · exact absurd hmem (hnone htail)

/-- Trimming keeps a first character that is not blank. -/
theorem head?_trim {c : Char} {text : List Char} (hc : isBlank c = false) :
    (trim (c :: text)).head? = some c := by
  obtain ⟨lead, tail, htext, hlead, -⟩ := exists_trim (c :: text)
  cases lead with
  | nil =>
    cases htrim : trim (c :: text) with
    | nil =>
      have := (trim_eq_nil_iff (c :: text)).mp htrim c List.mem_cons_self
      rw [hc] at this
      exact absurd this (by decide)
    | cons d more =>
      rw [htrim] at htext
      simp only [List.nil_append, List.cons_append, List.cons.injEq] at htext
      rw [htext.1]
      rfl
  | cons d more =>
    simp only [List.cons_append, List.cons.injEq] at htext
    have := hlead d List.mem_cons_self
    rw [← htext.1, hc] at this
    exact absurd this (by decide)

end ModuleSurface.Text
