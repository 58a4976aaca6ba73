import Mathlib.Data.List.Forall2
import ModuleSurface.Proofs.Signature.Arrangement

/-!
# Accepted — what the signatures look like that parsing gives

Each parameter comes from one slot that is not a marker (`Gives`), and the parameters stand in
groups (`Reading.Arranged`).  Both are invariants of the reading, so that they hold of every
signature that parsing gives (`exists_gives`).
-/

namespace ModuleSurface.Signature

open Nesting (start)
open Text (trim isBlank AllBlank trim_trim trim_eq_nil_iff isEmpty_trim_iff head?_trim
  trim_eq_self_iff)

/-! ## 1. The parameter that a slot gives -/

/-- Whether the parameter is the one that a slot gives, except for what markers say of its kind. -/
structure Gives (slot : List Char) (p : Parameter) : Prop where
  stars : slot = p.kind.stars.toList ++ afterStars slot
  read : readParameter p.kind (afterStars slot) = some p

theorem kind_of_readParameter {kind : ParameterKind} {body : List Char} {p : Parameter}
    (h : readParameter kind body = some p) : p.kind = kind := by
  simp only [readParameter] at h
  split at h
  · exact absurd h (by simp)
  · rw [Option.some.injEq] at h
    rw [← h]

theorem readParameter_with_kind {kind other : ParameterKind} {body : List Char} {p : Parameter}
    (h : readParameter kind body = some p) :
    readParameter other body = some { p with kind := other } := by
  simp only [readParameter] at h ⊢
  split at h
  · exact absurd h (by simp)
  · rename_i hname
    rw [Option.some.injEq] at h
    rw [if_neg hname, ← h]

theorem gives_of_readParameter {kind : ParameterKind} {slot : List Char} {p : Parameter}
    (hstars : slot = kind.stars.toList ++ afterStars slot)
    (h : readParameter kind (afterStars slot) = some p) : Gives slot p := by
  have hkind := kind_of_readParameter h
  exact ⟨by rwa [hkind], by rwa [hkind]⟩

theorem Gives.with_kind {slot : List Char} {p : Parameter} (h : Gives slot p)
    {kind : ParameterKind} (hkind : kind.stars = p.kind.stars) : Gives slot { p with kind } :=
  gives_of_readParameter (by rw [hkind, ← h.stars]) (readParameter_with_kind h.read)

theorem isBlank_of_mem_marks {mark : Char} (h : mark ∈ [',', ':', '=']) : isBlank mark = false := by
  simp only [List.mem_cons, List.not_mem_nil, or_false] at h
  rcases h with rfl | rfl | rfl <;> rfl

theorem isPart_trim {marks text : List Char} (hmarks : marks ⊆ [',', ':', '='])
    (hblank : ¬ AllBlank text) (hnested : Nested text) (hfree : ∀ mark ∈ marks, ¬ OnTop mark text) :
    IsPart marks (trim text) := by
  refine ⟨mt (trim_eq_nil_iff text).mp hblank, trim_trim text, (nested_trim_iff text).mpr hnested,
    ?_⟩
  intro mark hmark
  rw [onTop_trim_iff (isBlank_of_mem_marks (hmarks hmark)) hnested]
  exact hfree mark hmark

/-- The same for an annotation or a default, which may be missing. -/
theorem isPart_of_mem_kept {marks : List Char} {part : Option (List Char)}
    (hmarks : marks ⊆ [',', ':', '=']) (hnested : ∀ text ∈ part, Nested text)
    (hfree : ∀ text ∈ part, ∀ mark ∈ marks, ¬ OnTop mark text) :
    ∀ text ∈ (kept part).map String.ofList, IsPart marks text.toList := by
  intro text htext
  obtain ⟨chars, hchars, rfl⟩ := Option.map_eq_some_iff.mp htext
  obtain ⟨hne, whole, hwhole, rfl⟩ := (kept_eq_some_iff part chars).mp hchars
  rw [String.toList_ofList]
  exact isPart_trim hmarks (mt (trim_eq_nil_iff whole).mpr hne) (hnested whole hwhole)
    (hfree whole hwhole)

theorem not_onTop_of_marked {mark other : Char} (hmark : isOrdinary mark = true)
    {part : Option (List Char)} (hfree : ¬ OnTop other (marked mark part)) :
    ∀ text ∈ part, ¬ OnTop other text := by
  rintro text ⟨⟩ htop
  rw [marked, onTop_cons_iff hmark] at hfree
  exact hfree (.inr htop)

/-- The parameter that is read from a slot can be written again. -/
theorem isWritten_of_readParameter {kind : ParameterKind} {body : List Char} {p : Parameter}
    (hbody : IsPiece ',' body) (h : readParameter kind body = some p) : p.IsWritten := by
  obtain ⟨hnested, hcomma⟩ := hbody
  obtain ⟨parts, rfl, hcut⟩ := exists_parts hnested
  rw [hcut.onTop_text_iff, not_or, not_or] at hcomma
  obtain ⟨hname, htype, hvalue⟩ := hcomma
  rw [readParameter_text kind hcut] at h
  split at h
  · exact absurd h (by simp)
  · rename_i hempty
    rw [Option.some.injEq] at h
    subst h
    -- no part has a comma on top, and each has none of the marks that would end it
    refine ⟨?_, ?_, ?_⟩
    · rw [String.toList_ofList]
      refine isPart_trim (by simp) (mt (isEmpty_trim_iff _).mpr hempty) hcut.name_nested ?_
      intro mark hmark
      rcases List.mem_cons.mp hmark with rfl | hmark
      · exact hname
      · exact hcut.name_free mark hmark
    · refine isPart_of_mem_kept (by simp) hcut.type_nested ?_
      intro type hmem mark hmark
      simp only [List.mem_cons, List.not_mem_nil, or_false] at hmark
      rcases hmark with rfl | rfl
      · exact not_onTop_of_marked rfl htype type hmem
      · exact hcut.type_free type hmem
    · refine isPart_of_mem_kept (by simp) hcut.value_nested ?_
      intro value hmem mark hmark
      rw [List.mem_singleton.mp hmark]
      exact not_onTop_of_marked rfl hvalue value hmem

theorem length_afterStars_cons (rest : List Char) :
    (afterStars ('*' :: rest)).length ≤ rest.length := by
  by_cases hstar : ['*'] <+: rest
  · obtain ⟨more, rfl⟩ := hstar
    exact Nat.le_succ more.length
  · rw [afterStars_star hstar]

/-- A star at the start of a slot belongs to no name. -/
theorem Gives.not_star_name {slot : List Char} {p : Parameter} (h : Gives slot p)
    (htrim : trim slot = slot) (hnested : Nested slot) (hplain : p.kind.stars = "") :
    ¬ ['*'] <+: p.name.toList := by
  obtain ⟨hstars, hread⟩ := h
  rw [hplain, String.toList_empty, List.nil_append] at hstars
  rw [← hstars] at hread
  obtain ⟨parts, htext, hcut⟩ := exists_parts hnested
  rw [← htext, readParameter_text p.kind hcut] at hread
  split at hread
  · exact absurd hread (by simp)
  · rename_i hempty
    rw [Option.some.injEq] at hread
    rw [← hread, String.toList_ofList]
    intro hstar
    cases hname : parts.name with
    | nil => exact hempty (by rw [hname]; rfl)
    | cons c more =>
      -- the slot has no blank in front, so that the star is its first character
      rw [hname] at hstar
      have hslot : slot = c :: (more ++ marked ':' parts.type ++ marked '=' parts.value) := by
        rw [← htext, Parts.text, hname]
        rfl
      have hblank : isBlank c = false :=
        ((trim_eq_self_iff slot).mp htrim).1 c (by rw [hslot]; rfl)
      have hhead : (trim (c :: more)).head? = some '*' := by
        obtain ⟨rest, hrest⟩ := hstar
        rw [← hrest]
        rfl
      rw [head?_trim hblank, Option.some.injEq] at hhead
      subst hhead
      -- taking stars off made the slot shorter, but no stars were to be taken off
      have hlength :=
        length_afterStars_cons (more ++ marked ':' parts.type ++ marked '=' parts.value)
      rw [← hslot, ← hstars, hslot, List.length_cons] at hlength
      omega

/-! ## 2. The parameters that a run gives -/

def parameterSlots (slots : List (List Char)) : List (List Char) :=
  slots.filter fun slot => slot ≠ ['/'] ∧ slot ≠ ['*']

/-- Groups in which the parameters stand behind a run of slots. -/
structure Reading.Arranged (r : Reading) (slots : List (List Char)) (a : Arrangement) : Prop where
  parameters : a.parameters = r.parameters
  ordered : a.IsOrdered
  unslashed : r.slashed = false → a.positional = []
  unstarred : r.keywordOnly = false → a.starred = []
  unclosed : r.closed = false → a.closing = []
  first : r.keywordOnly = true → ['*'] ∉ slots →
    a.starred.head?.map (·.kind) = some .varPositional

theorem Reading.arranged_start : Reading.start.Arranged [] ⟨[], [], [], []⟩ := by
  have hordered : Arrangement.IsOrdered ⟨[], [], [], []⟩ := by decide
  exact ⟨rfl, hordered, fun _ => rfl, fun _ => rfl, fun _ => rfl, fun h => absurd h (by decide)⟩

theorem Arrangement.parameters_concat_starred {a : Arrangement} (h : a.closing = [])
    (p : Parameter) :
    Arrangement.parameters { a with starred := a.starred ++ [p] } = a.parameters ++ [p] := by
  simp [Arrangement.parameters, h]

theorem Arrangement.IsOrdered.concat_starred {a : Arrangement} (ha : a.IsOrdered) {p : Parameter}
    (hp : p.kind = .varPositional ∨ p.kind = .keywordOnly) :
    Arrangement.IsOrdered { a with starred := a.starred ++ [p] } := by
  refine ⟨ha.positional, ha.ordinary, ?_, ha.closing, ha.closing_length⟩
  intro q hq
  rcases List.mem_append.mp hq with hq | hq
  · exact ha.starred q hq
  · rw [List.mem_singleton.mp hq]
    exact hp

theorem Arrangement.IsOrdered.concat_ordinary {a : Arrangement} (ha : a.IsOrdered) {p : Parameter}
    (hp : p.kind = .positionalOrKeyword) :
    Arrangement.IsOrdered { a with ordinary := a.ordinary ++ [p] } := by
  refine ⟨ha.positional, ?_, ha.starred, ha.closing, ha.closing_length⟩
  intro q hq
  rcases List.mem_append.mp hq with hq | hq
  · exact ha.ordinary q hq
  · rw [List.mem_singleton.mp hq]
    exact hp

theorem Arrangement.IsOrdered.close {a : Arrangement} (ha : a.IsOrdered) {p : Parameter}
    (hp : p.kind = .varKeyword) : Arrangement.IsOrdered { a with closing := [p] } := by
  refine ⟨ha.positional, ha.ordinary, ha.starred, ?_, le_refl 1⟩
  intro q hq
  rw [List.mem_singleton.mp hq]
  exact hp

namespace Reading.Arranged

variable {r : Reading} {slots : List (List Char)} {a : Arrangement} (h : r.Arranged slots a)

include h

/-- Without a slash or a star before it, the slash finds ordinary parameters alone. -/
theorem slash (hslashed : r.slashed = false) (hkeyword : r.keywordOnly = false)
    (hclosed : r.closed = false) (others : List (List Char)) :
    Arranged { r with
      parameters := r.parameters.map ({ · with kind := .positionalOnly })
      slashed := true } others
      ⟨a.ordinary.map ({ · with kind := .positionalOnly }), [], [], []⟩ := by
  refine ⟨?_, ⟨?_, by simp, by simp, by simp, by simp⟩, fun h => absurd h (by simp), fun _ => rfl,
    fun _ => rfl, ?_⟩
  · rw [← h.parameters, Arrangement.parameters, Arrangement.parameters, h.unslashed hslashed,
      h.unstarred hkeyword, h.unclosed hclosed]
    simp
  · intro p hp
    obtain ⟨q, -, rfl⟩ := List.mem_map.mp hp
    rfl
  · intro h
    rw [hkeyword] at h
    exact absurd h (by decide)

/-- The first star parameter stays the first of its group. -/
theorem head_concat_starred (hkeyword : r.keywordOnly = true) (hnone : ['*'] ∉ slots)
    (p : Parameter) : (a.starred ++ [p]).head?.map (·.kind) = some .varPositional := by
  obtain ⟨q, hq, hqkind⟩ := Option.map_eq_some_iff.mp (h.first hkeyword hnone)
  rw [List.head?_append, hq, Option.some_or, Option.map_some, hqkind]

theorem concat_starred (slot : List Char) {p : Parameter} (hclosed : r.closed = false)
    (hp : p.kind = .varPositional ∨ p.kind = .keywordOnly)
    (hfirst : ['*'] ∉ slots → (a.starred ++ [p]).head?.map (·.kind) = some .varPositional) :
    Arranged ⟨r.parameters ++ [p], true, r.slashed, r.closed⟩ (slots ++ [slot])
      { a with starred := a.starred ++ [p] } := by
  refine ⟨?_, h.ordered.concat_starred hp, h.unslashed, fun h => absurd h (by simp), h.unclosed, ?_⟩
  · rw [Arrangement.parameters_concat_starred (h.unclosed hclosed), h.parameters]
  · intro _ hnone
    exact hfirst fun hmem => hnone (List.mem_append_left _ hmem)

theorem concat_ordinary (slot : List Char) {p : Parameter} (hclosed : r.closed = false)
    (hkeyword : r.keywordOnly = false) (hp : p.kind = .positionalOrKeyword) :
    Arranged { r with parameters := r.parameters ++ [p] } (slots ++ [slot])
      { a with ordinary := a.ordinary ++ [p] } := by
  refine ⟨?_, h.ordered.concat_ordinary hp, h.unslashed, h.unstarred, h.unclosed, ?_⟩
  · rw [← h.parameters, Arrangement.parameters, Arrangement.parameters, h.unclosed hclosed,
      h.unstarred hkeyword]
    simp
  · intro hkeyword'
    rw [hkeyword] at hkeyword'
    exact absurd hkeyword' (by decide)

theorem close (slot : List Char) {p : Parameter} (hclosed : r.closed = false)
    (hp : p.kind = .varKeyword) :
    Arranged { r with parameters := r.parameters ++ [p], closed := true } (slots ++ [slot])
      { a with closing := [p] } := by
  refine ⟨?_, h.ordered.close hp, h.unslashed, h.unstarred, fun h => absurd h (by simp), ?_⟩
  · rw [← h.parameters, Arrangement.parameters, Arrangement.parameters, h.unclosed hclosed,
      List.append_nil]
  · exact fun hkeyword hnone =>
      h.first hkeyword fun hmem => hnone (List.mem_append_left _ hmem)

/-- One more slot adds its parameter to one of the groups; the slash moves the ordinary ones. -/
theorem next {last : Reading} {slot : List Char} (hnext : r.Next (.ofText slot) last) :
    ∃ b, last.Arranged (slots ++ [slot]) b := by
  rcases ofText_cases slot with ⟨rfl, htext⟩ | ⟨rfl, htext⟩ | ⟨rfl, htext⟩ | ⟨hdouble, htext⟩ |
    ⟨hstar, hsingle, hne, htext⟩ | ⟨-, hslash, hstar, htext⟩ <;> rw [htext] at hnext
  · exact hnext.elim
  · -- the slash
    obtain ⟨hclosed, hslashed, hkeyword, -, rfl⟩ := hnext
    exact ⟨_, h.slash hslashed hkeyword hclosed _⟩
  · -- what comes first behind a lone star may be of either kind
    obtain ⟨hclosed, rfl⟩ := hnext
    refine ⟨a, h.parameters, h.ordered, h.unslashed, fun h => absurd h (by simp), h.unclosed, ?_⟩
    intro _ hnone
    exact absurd (List.mem_append_right _ (List.mem_singleton_self _)) hnone
  · -- two stars
    obtain ⟨hclosed, p, hp, rfl⟩ := hnext
    exact ⟨_, h.close slot hclosed (kind_of_readParameter hp)⟩
  · -- one star
    obtain ⟨hclosed, p, hp, rfl⟩ := hnext
    have hkind := kind_of_readParameter hp
    refine ⟨_, h.concat_starred slot hclosed (.inl hkind) ?_⟩
    intro hnone
    cases hkeyword : r.keywordOnly with
    | false => simp [h.unstarred hkeyword, hkind]
    | true => exact h.head_concat_starred hkeyword hnone p
  · -- no star: the group depends on whether a star came before
    obtain ⟨hclosed, p, hp, rfl⟩ := hnext
    have hkind := kind_of_readParameter hp
    cases hkeyword : r.keywordOnly with
    | false =>
      rw [hkeyword] at hkind
      have hlast := h.concat_ordinary slot hclosed hkeyword hkind
      rw [hkeyword] at hlast
      exact ⟨_, hlast⟩
    | true =>
      rw [hkeyword] at hkind
      exact ⟨_, h.concat_starred slot hclosed (.inr hkind) fun hnone =>
        h.head_concat_starred hkeyword hnone p⟩

theorem starFirst (hnone : ['*'] ∉ slots) : a.StarFirst := by
  cases hkeyword : r.keywordOnly with
  | false =>
    left
    rw [h.unstarred hkeyword]
    exact fun p hp => absurd hp List.not_mem_nil
  | true => exact .inr (h.first hkeyword hnone)

end Reading.Arranged

/-- What a state owes to the slots that led to it. -/
structure Reading.Accounts (r : Reading) (slots : List (List Char)) : Prop where
  gives : List.Forall₂ Gives (parameterSlots slots) r.parameters
  arranged : ∃ a, r.Arranged slots a

theorem Reading.accounts_start : Reading.start.Accounts [] :=
  ⟨.nil, _, arranged_start⟩

theorem parameterSlots_append (slots others : List (List Char)) :
    parameterSlots (slots ++ others) = parameterSlots slots ++ parameterSlots others := by
  rw [parameterSlots, List.filter_append]
  rfl

theorem parameterSlots_concat {slots : List (List Char)} {slot : List Char} (hslash : slot ≠ ['/'])
    (hstar : slot ≠ ['*']) : parameterSlots (slots ++ [slot]) = parameterSlots slots ++ [slot] := by
  simp [parameterSlots, hslash, hstar]

theorem parameterSlots_concat_marker {slots : List (List Char)} {slot : List Char}
    (h : slot = ['/'] ∨ slot = ['*']) :
    parameterSlots (slots ++ [slot]) = parameterSlots slots := by
  rcases h with rfl | rfl <;> simp [parameterSlots]

theorem forall₂_imp_of_mem {α β : Type} {R S : α → β → Prop} {xs : List α} {ys : List β}
    (h : List.Forall₂ R xs ys) (himp : ∀ x, ∀ y ∈ ys, R x y → S x y) : List.Forall₂ S xs ys := by
  induction h with
  | nil => exact .nil
  | cons hxy _ ih =>
    exact .cons (himp _ _ List.mem_cons_self hxy)
      (ih fun x y hy => himp x y (List.mem_cons_of_mem _ hy))

theorem Reading.Accounts.next {r next : Reading} {slots : List (List Char)} {slot : List Char}
    (h : r.Accounts slots) (hnext : r.Next (.ofText slot) next) :
    next.Accounts (slots ++ [slot]) := by
  obtain ⟨hgives, a, ha⟩ := h
  refine ⟨?_, ha.next hnext⟩
  have hadd : ∀ {p : Parameter}, slot ≠ ['/'] → slot ≠ ['*'] → Gives slot p →
      List.Forall₂ Gives (parameterSlots (slots ++ [slot])) (r.parameters ++ [p]) := by
    intro p hslash hstar hp
    rw [parameterSlots_concat hslash hstar]
    exact List.rel_append hgives (.cons hp .nil)
  rcases ofText_cases slot with ⟨rfl, htext⟩ | ⟨rfl, htext⟩ | ⟨rfl, htext⟩ | ⟨hdouble, htext⟩ |
    ⟨hstar, hsingle, hne, htext⟩ | ⟨-, hslash, hstar, htext⟩ <;> rw [htext] at hnext
  · exact hnext.elim
  · -- the slash exchanges one kind without stars for another
    obtain ⟨hclosed, hslashed, hkeyword, -, rfl⟩ := hnext
    have hplain : ∀ p ∈ r.parameters, p.kind = .positionalOrKeyword := by
      rw [← ha.parameters, Arrangement.parameters, ha.unslashed hslashed, ha.unstarred hkeyword,
        ha.unclosed hclosed]
      simpa using ha.ordered.ordinary
    rw [parameterSlots_concat_marker (.inl rfl), List.forall₂_map_right_iff]
    refine forall₂_imp_of_mem hgives fun slot p hp h => h.with_kind ?_
    rw [hplain p hp]
    rfl
  · obtain ⟨hclosed, rfl⟩ := hnext
    rw [parameterSlots_concat_marker (.inr rfl)]
    exact hgives
  · obtain ⟨hclosed, p, hp, rfl⟩ := hnext
    obtain ⟨hstar, hne⟩ := star_of_double hdouble
    refine hadd (ne_slash_of_star hstar) hne (gives_of_readParameter ?_ hp)
    obtain ⟨body, rfl⟩ := hdouble
    rfl
  · obtain ⟨hclosed, p, hp, rfl⟩ := hnext
    refine hadd (ne_slash_of_star hstar) hne (gives_of_readParameter ?_ hp)
    obtain ⟨body, rfl⟩ := hstar
    -- one star and no more, so that what is behind it is read as it stands
    have hbody : ¬ ['*'] <+: body := by
      rintro ⟨rest, rfl⟩
      exact hsingle ⟨rest, rfl⟩
    rw [List.singleton_append, afterStars_star hbody]
    rfl
  · obtain ⟨hclosed, p, hp, rfl⟩ := hnext
    refine hadd hslash (not_star_iff_of_not_star hstar).2 (gives_of_readParameter ?_ hp)
    rw [afterStars_plain hstar]
    cases r.keywordOnly <;> rfl

theorem Reading.Accounts.run {r last : Reading} {before slots : List (List Char)}
    (h : r.Accounts before) (hreads : r.Reads slots last) : last.Accounts (before ++ slots) := by
  induction slots generalizing r before with
  | nil =>
    rw [List.append_nil]
    exact hreads ▸ h
  | cons slot slots ih =>
    obtain ⟨next, hnext, hlast⟩ := hreads
    rw [List.append_cons]
    exact ih (h.next hnext) hlast

/-! ## 3. The signatures that parsing gives -/

structure Accepted (s : Signature) : Prop where
  slots : ∃ slots last, (∀ slot ∈ slots, trim slot = slot ∧ IsPiece ',' slot) ∧
    Reading.start.Reads slots last ∧ s.parameters = last.parameters
  returns : ∀ type ∈ s.returns, IsReturn type

theorem IsSlots.trimmed_piece {inner : List Char} {slots : List (List Char)}
    (h : IsSlots inner slots) : ∀ slot ∈ slots, trim slot = slot ∧ IsPiece ',' slot := by
  obtain ⟨pieces, -, -, hpieces, rfl⟩ := h
  intro slot hslot
  obtain ⟨piece, hpiece, rfl⟩ := List.mem_map.mp hslot
  obtain ⟨hnested, hfree⟩ := hpieces piece hpiece
  refine ⟨trim_trim piece, (nested_trim_iff piece).mpr hnested, ?_⟩
  rwa [onTop_trim_iff (by decide) hnested]

theorem accepted_of_parse {text : String} {s : Signature} (h : parse text = .ok s) :
    s.Accepted := by
  obtain ⟨inner, after, -, -, hreturns, hdeclares⟩ := (parse_eq_ok_iff text s).mp h
  refine ⟨?_, ?_⟩
  · rcases hdeclares with ⟨-, hnil⟩ | ⟨-, slots, hslots, last, hreads, hlast⟩
    · exact ⟨[], .start, by simp, rfl, hnil⟩
    · exact ⟨slots, last, hslots.trimmed_piece, hreads, hlast⟩
  · intro type htype
    rw [Option.mem_def.mp htype] at hreturns
    obtain ⟨whole, -, hblank, rfl⟩ := hreturns
    rw [IsReturn, String.toList_ofList]
    exact ⟨mt (trim_eq_nil_iff whole).mp hblank, trim_trim whole⟩

theorem exists_of_forall₂ {α β : Type} {R : α → β → Prop} {xs : List α} {ys : List β}
    (h : List.Forall₂ R xs ys) : ∀ y ∈ ys, ∃ x ∈ xs, R x y := by
  induction h with
  | nil => exact fun y hy => absurd hy List.not_mem_nil
  | @cons x y xs ys hxy _ ih =>
    intro z hz
    rcases List.mem_cons.mp hz with rfl | hz
    · exact ⟨x, by simp, hxy⟩
    · obtain ⟨w, hw, hR⟩ := ih z hz
      exact ⟨w, List.mem_cons_of_mem _ hw, hR⟩

theorem nested_stars (kind : ParameterKind) : Nested kind.stars.toList := by
  cases kind <;> decide

namespace Accepted

variable {s : Signature} (h : s.Accepted)

include h

theorem exists_slot {p : Parameter} (hp : p ∈ s.parameters) :
    ∃ slot, Gives slot p ∧ trim slot = slot ∧ IsPiece ',' slot := by
  obtain ⟨slots, last, hslots, hreads, hlast⟩ := h.slots
  have hgives := (Reading.accounts_start.run hreads).gives
  rw [← hlast] at hgives
  obtain ⟨slot, hslot, hp⟩ := exists_of_forall₂ hgives p hp
  exact ⟨slot, hp, hslots slot (List.mem_of_mem_filter hslot)⟩

theorem isWritten : ∀ p ∈ s.parameters, p.IsWritten := by
  intro p hp
  obtain ⟨slot, hgives, -, hnested, hfree⟩ := h.exists_slot hp
  have hbody : IsPiece ',' (afterStars slot) := by
    refine ⟨nested_afterStars hnested, fun htop => hfree ?_⟩
    rw [hgives.stars, onTop_append_iff (nested_stars p.kind)]
    exact .inr htop
  exact isWritten_of_readParameter hbody hgives.read

/-- No name of a parameter without stars begins with one. -/
theorem not_star_name {p : Parameter} (hp : p ∈ s.parameters) (hkind : p.kind.stars = "") :
    ¬ ['*'] <+: p.name.toList := by
  obtain ⟨slot, hgives, htrim, hnested, -⟩ := h.exists_slot hp
  exact hgives.not_star_name htrim hnested hkind

theorem exists_arrangement : ∃ a : Arrangement, a.parameters = s.parameters ∧ a.IsOrdered := by
  obtain ⟨slots, last, -, hreads, hlast⟩ := h.slots
  obtain ⟨a, ha⟩ := (Reading.accounts_start.run hreads).arranged
  exact ⟨a, by rw [ha.parameters, hlast], ha.ordered⟩

end Accepted

end ModuleSurface.Signature
