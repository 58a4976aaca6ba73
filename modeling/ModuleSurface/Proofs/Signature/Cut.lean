import ModuleSurface.Proofs.Signature.Nested
import ModuleSurface.Proofs.Text.Split

/-!
# Cut — the scans cut a text where the grammar of nested texts says

A group closes behind the nested text inside it (`closeGroup_eq_some_iff`), a text is cut at the
separators on top and nowhere else (`topPieces_eq_some_iff`), and the first occurrence on top is
the one that is found (`topCut_eq_some_iff`).
-/

namespace ModuleSurface.Signature

open Nesting (start run_append run_cons run_nil isTop_iff step_ordinary step_outside_cases)
open Text (join)

/-! ## 1. Occurrences from a state on -/

/-- Reading on from a state, the character is nowhere met at the top. -/
def FreeFrom (n : Nesting) (c : Char) (text : List Char) : Prop :=
  ∀ before after, text = before ++ c :: after → n.run before ≠ some start

theorem freeFrom_cons_iff (n : Nesting) (c d : Char) (text : List Char) :
    FreeFrom n c (d :: text) ↔
      ¬ (n = start ∧ d = c) ∧ ∀ next, n.step d = some next → FreeFrom next c text := by
  constructor
  · intro h
    refine ⟨?_, ?_⟩
    · rintro ⟨rfl, rfl⟩
      exact h [] text rfl rfl
    · intro next hstep before after heq hrun
      refine h (d :: before) after (by rw [heq]; rfl) ?_
      rw [run_cons, hstep, Option.bind_some]
      exact hrun
  · -- an occurrence is the first character, or it is met from the next state on
    rintro ⟨hhead, hrest⟩ before after heq hrun
    cases before with
    | nil =>
      simp only [List.nil_append, List.cons.injEq] at heq
      simp only [run_nil, Option.some.injEq] at hrun
      exact hhead ⟨hrun, heq.1⟩
    | cons e before =>
      simp only [List.cons_append, List.cons.injEq] at heq
      obtain ⟨rfl, rfl⟩ := heq
      rw [run_cons, Option.bind_eq_some_iff] at hrun
      obtain ⟨next, hstep, hrun⟩ := hrun
      exact hrest next hstep before after rfl hrun

-- At the start, to meet a character at the top is to have a nested text before it.
theorem freeFrom_start_iff (c : Char) (text : List Char) :
    FreeFrom start c text ↔ ¬ OnTop c text := by
  constructor
  · rintro h ⟨before, after, heq, hbefore⟩
    exact h before after heq ((nested_iff_run before).mp hbefore)
  · intro h before after heq hrun
    exact h ⟨before, after, heq, (nested_iff_run before).mpr hrun⟩

/-- A reading that ends at the top and nowhere meets the character there goes on in the same way
behind its first character. -/
theorem exists_step_of_freeFrom {n : Nesting} {c d : Char} {text : List Char}
    (hrun : n.run (d :: text) = some start) (hfree : FreeFrom n c (d :: text)) :
    ∃ next, n.step d = some next ∧ next.run text = some start ∧ FreeFrom next c text ∧
      ¬ (n.isTop && d == c) = true := by
  rw [run_cons, Option.bind_eq_some_iff] at hrun
  obtain ⟨next, hstep, hrun⟩ := hrun
  rw [freeFrom_cons_iff] at hfree
  exact ⟨next, hstep, hrun, hfree.2 next hstep, by simpa [isTop_iff] using hfree.1⟩

/-! ## 2. The first occurrence on top -/

theorem topCut_append {target : Char} (htarget : isOrdinary target = true) {n : Nesting}
    {before : List Char} (hrun : n.run before = some start) (hfree : FreeFrom n target before)
    (after : List Char) : topCut target n (before ++ target :: after) = some (before, after) := by
  induction before generalizing n with
  | nil =>
    simp only [run_nil, Option.some.injEq] at hrun
    subst hrun
    have hstep := step_ordinary htarget []
    simp [topCut, start, hstep, Nesting.isTop]
  | cons c before ih =>
    obtain ⟨next, hstep, hrun, hfree, hcond⟩ := exists_step_of_freeFrom hrun hfree
    simp only [List.cons_append, topCut, hstep, hcond, Bool.false_eq_true, if_false]
    rw [ih hrun hfree]
    rfl

theorem topCut_of_freeFrom {target : Char} {n : Nesting} {text : List Char}
    (hfree : FreeFrom n target text) : topCut target n text = none := by
  induction text generalizing n with
  | nil => rfl
  | cons c text ih =>
    rw [freeFrom_cons_iff] at hfree
    have hcond : ¬ (n.isTop && c == target) = true := by
      simpa [isTop_iff] using hfree.1
    cases hstep : n.step c with
    | none => simp [topCut, hstep]
    | some next =>
      simp only [topCut, hstep, hcond, Bool.false_eq_true, if_false]
      rw [ih (hfree.2 next hstep)]
      rfl

/-- A character that is on top occurs there a first time. -/
theorem exists_first_onTop {c : Char} {text : List Char} (h : OnTop c text) :
    ∃ before after, text = before ++ c :: after ∧ Nested before ∧ ¬ OnTop c before := by
  obtain ⟨before, after, rfl, hbefore⟩ := h
  induction hlength : before.length using Nat.strongRecOn generalizing before after with
  | ind length ih =>
    -- What stands before the occurrence holds an earlier one, or it is the first.
    by_cases hfirst : OnTop c before
    · obtain ⟨first, rest, rfl, hnested⟩ := hfirst
      obtain ⟨before', after', heq, h⟩ := ih first.length
        (by rw [← hlength]; simp) first (rest ++ c :: after) hnested rfl
      exact ⟨before', after', by rw [← heq]; simp, h⟩
    · exact ⟨before, after, rfl, hbefore, hfirst⟩

theorem topCut_eq_some_iff {target : Char} (htarget : isOrdinary target = true)
    (text before after : List Char) :
    topCut target start text = some (before, after) ↔
      text = before ++ target :: after ∧ Nested before ∧ ¬ OnTop target before := by
  have hcut : ∀ {before after : List Char}, Nested before → ¬ OnTop target before →
      topCut target start (before ++ target :: after) = some (before, after) := by
    intro before after hbefore hfree
    exact topCut_append htarget ((nested_iff_run before).mp hbefore)
      ((freeFrom_start_iff _ _).mpr hfree) after
  constructor
  · intro h
    -- The scan finds the first occurrence where there is one, and otherwise nothing.
    by_cases htop : OnTop target text
    · obtain ⟨first, rest, rfl, hfirst, hfree⟩ := exists_first_onTop htop
      rw [hcut hfirst hfree, Option.some.injEq, Prod.mk.injEq] at h
      obtain ⟨rfl, rfl⟩ := h
      exact ⟨rfl, hfirst, hfree⟩
    · rw [topCut_of_freeFrom ((freeFrom_start_iff _ _).mpr htop)] at h
      exact absurd h (by simp)
  · rintro ⟨rfl, hbefore, hfree⟩
    exact hcut hbefore hfree

theorem topCut_eq_none {target : Char} {text : List Char} (h : ¬ OnTop target text) :
    topCut target start text = none :=
  topCut_of_freeFrom ((freeFrom_start_iff _ _).mpr h)

/-! ## 3. The pieces between separators on top -/

/-- A last piece of a text, read from a state on. -/
theorem topPieces_of_freeFrom {separator : Char} {n : Nesting} {piece : List Char}
    (hrun : n.run piece = some start) (hfree : FreeFrom n separator piece) :
    topPieces separator n piece = some [piece] := by
  induction piece generalizing n with
  | nil =>
    simp only [run_nil, Option.some.injEq] at hrun
    subst hrun
    rfl
  | cons c piece ih =>
    obtain ⟨next, hstep, hrun, hfree, hcond⟩ := exists_step_of_freeFrom hrun hfree
    simp only [topPieces, hstep, hcond, Bool.false_eq_true, if_false]
    rw [ih hrun hfree]
    rfl

/-- A piece of a text, read from a state on, with a separator behind it. -/
theorem topPieces_append {separator : Char} (hsep : isOrdinary separator = true) {n : Nesting}
    {piece : List Char} (hrun : n.run piece = some start) (hfree : FreeFrom n separator piece)
    (rest : List Char) :
    topPieces separator n (piece ++ separator :: rest) =
      (topPieces separator start rest).map (piece :: ·) := by
  induction piece generalizing n with
  | nil =>
    simp only [run_nil, Option.some.injEq] at hrun
    subst hrun
    have hstep : start.step separator = some start := step_ordinary hsep []
    have hcond : (start.isTop && separator == separator) = true := by simp [isTop_iff]
    simp only [List.nil_append, topPieces, hstep, hcond, if_true]
  | cons c piece ih =>
    obtain ⟨next, hstep, hrun, hfree, hcond⟩ := exists_step_of_freeFrom hrun hfree
    simp only [List.cons_append, topPieces, hstep, hcond, Bool.false_eq_true, if_false]
    rw [ih hrun hfree, Option.map_map]
    rfl

/-- The texts that are a piece: nested, and without the separator on top. -/
def IsPiece (separator : Char) (piece : List Char) : Prop :=
  Nested piece ∧ ¬ OnTop separator piece

theorem topPieces_join {separator : Char} (hsep : isOrdinary separator = true)
    {pieces : List (List Char)} (hne : pieces ≠ [])
    (hpieces : ∀ piece ∈ pieces, IsPiece separator piece) :
    topPieces separator start (join [separator] pieces) = some pieces := by
  induction pieces with
  | nil => exact absurd rfl hne
  | cons piece more ih =>
    obtain ⟨hnested, hfree⟩ := hpieces piece List.mem_cons_self
    have hrun := (nested_iff_run piece).mp hnested
    have hfrom := (freeFrom_start_iff separator piece).mpr hfree
    cases more with
    | nil => exact topPieces_of_freeFrom hrun hfrom
    | cons second more =>
      have hrest := ih (by simp) fun p hp => hpieces p (List.mem_cons_of_mem _ hp)
      rw [show join [separator] (piece :: second :: more) =
          piece ++ separator :: join [separator] (second :: more) by simp [join],
        topPieces_append hsep hrun hfrom, hrest]
      rfl

theorem nested_join {separator : Char} (hsep : isOrdinary separator = true)
    {pieces : List (List Char)} (h : ∀ piece ∈ pieces, Nested piece) :
    Nested (join [separator] pieces) := by
  induction pieces with
  | nil => exact .nil
  | cons piece more ih =>
    have hpiece := h piece (by simp)
    have hmore := ih fun p hp => h p (by simp [hp])
    cases more with
    | nil => exact hpiece
    | cons second more =>
      rw [Text.join_cons_cons, List.append_assoc]
      exact hpiece.append (.char hsep hmore)

theorem exists_pieces (separator : Char) (hsep : isOrdinary separator = true) {text : List Char}
    (h : Nested text) :
    ∃ pieces, pieces ≠ [] ∧ text = join [separator] pieces ∧
      ∀ piece ∈ pieces, IsPiece separator piece := by
  induction hlength : text.length using Nat.strongRecOn generalizing text with
  | ind length ih =>
    -- The first separator ends the first piece, and the rest is shorter.
    by_cases htop : OnTop separator text
    · obtain ⟨before, after, rfl, hbefore, hfree⟩ := exists_first_onTop htop
      have hafter := (nested_cons_iff hsep after).mp (h.of_append hbefore)
      obtain ⟨pieces, hne, rfl, hpieces⟩ := ih after.length
        (by rw [← hlength]; simp only [List.length_append, List.length_cons]; omega) hafter rfl
      refine ⟨before :: pieces, by simp, ?_, ?_⟩
      · cases pieces with
        | nil => exact absurd rfl hne
        | cons piece more => simp [join]
      · intro piece hpiece
        rcases List.mem_cons.mp hpiece with rfl | hmem
        · exact ⟨hbefore, hfree⟩
        · exact hpieces piece hmem
    · refine ⟨[text], by simp, rfl, ?_⟩
      intro piece hpiece
      rw [List.mem_singleton.mp hpiece]
      exact ⟨h, htop⟩

theorem topPieces_eq_some_iff {separator : Char} (hsep : isOrdinary separator = true)
    {text : List Char} (h : Nested text) (pieces : List (List Char)) :
    topPieces separator start text = some pieces ↔
      pieces ≠ [] ∧ text = join [separator] pieces ∧
        ∀ piece ∈ pieces, IsPiece separator piece := by
  constructor
  · intro hcut
    -- There is a cutting by the grammar, and the scan gives that one.
    obtain ⟨others, hne, rfl, hothers⟩ := exists_pieces separator hsep h
    rw [topPieces_join hsep hne hothers, Option.some.injEq] at hcut
    subst hcut
    exact ⟨hne, rfl, hothers⟩
  · rintro ⟨hne, rfl, hpieces⟩
    exact topPieces_join hsep hne hpieces

/-! ## 4. The end of a group -/

/-- A state with one more bracket awaited behind all others. -/
def Nesting.within (n : Nesting) (closing : Char) : Nesting :=
  ⟨n.closers ++ [closing], n.quoting⟩

theorem Nesting.within_isTop (n : Nesting) (closing : Char) :
    (n.within closing).isTop = false := by
  simp [within, isTop]

theorem Nesting.step_within {n next : Nesting} {c : Char} (h : n.step c = some next)
    (closing : Char) : (n.within closing).step c = some (next.within closing) := by
  obtain ⟨closers, quoting⟩ := n
  cases quoting with
  | outside =>
    rcases step_outside_cases h with ⟨hquote, rfl⟩ | ⟨other, hopen, rfl⟩ |
      ⟨outer, rfl, rfl, hclose⟩ | ⟨hc, rfl⟩
    · exact step_quote hquote _
    · exact step_open hopen _
    · exact hclose _
    · exact step_ordinary hc _
  | inside quote =>
    rw [step_inside, Option.some.injEq] at h
    subst h
    exact step_inside _ _ _
  | escaping quote =>
    simp only [step, Option.some.injEq] at h
    subst h
    rfl

/-- The last awaited bracket closes at the top and nowhere else. -/
theorem Nesting.step_within_cases {n next : Nesting} {c closing : Char}
    (h : (n.within closing).step c = some next) :
    (∃ inner, n.step c = some inner ∧ next = inner.within closing) ∨
      (n = start ∧ c = closing ∧ next = start) := by
  obtain ⟨closers, quoting⟩ := n
  cases quoting with
  | outside =>
    rcases step_outside_cases h with ⟨hquote, rfl⟩ | ⟨other, hopen, rfl⟩ |
      ⟨outer, heq, rfl, hclose⟩ | ⟨hc, rfl⟩
    · exact .inl ⟨_, step_quote hquote _, rfl⟩
    · exact .inl ⟨_, step_open hopen _, rfl⟩
    · cases closers with
      | nil =>
        -- Nothing but the outer bracket is awaited, so it is the one that closes.
        simp only [List.nil_append, List.cons.injEq] at heq
        obtain ⟨rfl, rfl⟩ := heq
        exact .inr ⟨rfl, rfl, rfl⟩
      | cons awaited closers =>
        simp only [List.cons_append, List.cons.injEq] at heq
        obtain ⟨rfl, rfl⟩ := heq
        exact .inl ⟨_, hclose _, rfl⟩
    · exact .inl ⟨_, step_ordinary hc _, rfl⟩
  | inside quote =>
    rw [within, step_inside, Option.some.injEq] at h
    subst h
    exact .inl ⟨_, step_inside _ _ _, rfl⟩
  | escaping quote =>
    simp only [within, step, Option.some.injEq] at h
    subst h
    exact .inl ⟨_, rfl, rfl⟩

theorem closeGroup_append (opening : Char) {closing : Char} (hpair : closer? opening = some closing)
    {n : Nesting} {inner : List Char} (hrun : n.run inner = some start) (after : List Char) :
    closeGroup (n.within closing) (inner ++ closing :: after) = some (inner, after) := by
  induction inner generalizing n with
  | nil =>
    simp only [run_nil, Option.some.injEq] at hrun
    subst hrun
    have hstep : (start.within closing).step closing = some start :=
      Nesting.step_close hpair []
    simp [closeGroup, hstep, (isTop_iff start).mpr rfl]
  | cons c inner ih =>
    rw [run_cons, Option.bind_eq_some_iff] at hrun
    obtain ⟨next, hstep, hrun⟩ := hrun
    simp only [List.cons_append, closeGroup, Nesting.step_within hstep, Nesting.within_isTop,
      Bool.false_eq_true, if_false]
    rw [ih hrun]
    rfl

-- The induction runs the inner reading and the one with the outer bracket side by side.
theorem eq_append_of_closeGroup {closing : Char} {n : Nesting} {text inner after : List Char}
    (h : closeGroup (n.within closing) text = some (inner, after)) :
    text = inner ++ closing :: after ∧ n.run inner = some start := by
  induction text generalizing n inner with
  | nil => simp [closeGroup] at h
  | cons c text ih =>
    cases hstep : (n.within closing).step c with
    | none => simp [closeGroup, hstep] at h
    | some next =>
      rcases Nesting.step_within_cases hstep with ⟨m, hm, rfl⟩ | ⟨rfl, rfl, rfl⟩
      · simp only [closeGroup, hstep, Nesting.within_isTop, Bool.false_eq_true, if_false,
          Option.map_eq_some_iff, Prod.mk.injEq, Prod.exists] at h
        obtain ⟨rest, after', hrest, rfl, rfl⟩ := h
        obtain ⟨rfl, hrun⟩ := ih hrest
        exact ⟨rfl, by rw [run_cons, hm, Option.bind_some, hrun]⟩
      · simp only [closeGroup, hstep, (isTop_iff start).mpr rfl, if_true, Option.some.injEq,
          Prod.mk.injEq] at h
        obtain ⟨rfl, rfl⟩ := h
        exact ⟨rfl, rfl⟩

theorem closeGroup_eq_some_iff (text inner after : List Char) :
    closeGroup ⟨[')'], .outside⟩ text = some (inner, after) ↔
      text = inner ++ ')' :: after ∧ Nested inner := by
  rw [nested_iff_run]
  constructor
  · exact eq_append_of_closeGroup (n := start)
  · rintro ⟨rfl, hrun⟩
    exact closeGroup_append '(' rfl hrun after

end ModuleSurface.Signature
