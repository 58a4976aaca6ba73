import Mathlib.Data.Nat.Find
import ModuleSurface.Proofs.Signature.Cut

/-!
# Scans — where the scans of a text stop, by index

The reading of brackets and quotes accepts the nested texts and no others, and the scans built on
it stop where the grammar says (`scans_follow_grammar`): at the parenthesis behind a nested text, at
the separators that have nested texts between them, and at the least place of a character that has
a nested text before it.  Inside a nested text no reading is ever refused.
-/

namespace ModuleSurface.Signature

open Nesting (start run_append run_cons run_nil isTop_iff)
open Text (join)

/-! ## 1. Places of characters on top -/

/-- Whether a character stands at a place of a text, with a nested text before it. -/
def TopAt (c : Char) (text : List Char) (i : Nat) : Prop :=
  text[i]? = some c ∧ Nested (text.take i)

instance (c : Char) (text : List Char) (i : Nat) : Decidable (TopAt c text i) :=
  inferInstanceAs (Decidable (_ ∧ _))

/-- The place at which the parenthesis at the start of a text is closed. -/
def closingPlace? : List Char → Option Nat
  | '(' :: text => (closeGroup ⟨[')'], .outside⟩ text).map fun (inner, _) => inner.length + 1
  | _ => none

def topPlace? (target : Char) (text : List Char) : Option Nat :=
  (topCut target start text).map fun (before, _) => before.length

theorem exists_cut_iff (c : Char) (text : List Char) (i : Nat) :
    text[i]? = some c ↔ ∃ before after, text = before ++ c :: after ∧ before.length = i := by
  constructor
  · intro h
    obtain ⟨hi, hc⟩ := List.getElem?_eq_some_iff.mp h
    refine ⟨text.take i, text.drop (i + 1), ?_, List.length_take_of_le (by omega)⟩
    rw [← hc, List.getElem_cons_drop, List.take_append_drop]
  · rintro ⟨before, after, rfl, rfl⟩
    simp

theorem topAt_iff_exists (c : Char) (text : List Char) (i : Nat) :
    TopAt c text i ↔
      ∃ before after, text = before ++ c :: after ∧ before.length = i ∧ Nested before := by
  constructor
  · rintro ⟨hc, hnested⟩
    obtain ⟨before, after, rfl, rfl⟩ := (exists_cut_iff c text i).mp hc
    rw [List.take_left] at hnested
    exact ⟨before, after, rfl, rfl, hnested⟩
  · rintro ⟨before, after, rfl, rfl, hnested⟩
    exact ⟨by simp, by rwa [List.take_left]⟩

/-- Before a place there is no occurrence on top, said of the places or of the text before it. -/
theorem not_onTop_iff_forall_lt (c : Char) (before after : List Char) :
    ¬ OnTop c before ↔ ∀ j < before.length, ¬ TopAt c (before ++ after) j := by
  rw [onTop_iff_exists_take]
  push Not
  apply forall₂_congr
  intro j hj
  -- up to its own length, the text before the place is all that there is to see
  rw [TopAt, List.getElem?_append_left hj, List.take_append_of_le_length (by omega), not_and]

/-! ## 2. The reading of a whole text -/

/-- Inside a nested text no reading is refused. -/
theorem Nested.exists_run {text : List Char} (h : Nested text) (i : Nat) :
    ∃ n, start.run (text.take i) = some n := by
  have hrun := (nested_iff_run text).mp h
  rw [← List.take_append_drop i text, run_append] at hrun
  obtain ⟨n, hn, -⟩ := Option.bind_eq_some_iff.mp hrun
  exact ⟨n, hn⟩

theorem exists_isTop_iff_nested (text : List Char) :
    (∃ n, start.run text = some n ∧ n.isTop = true) ↔ Nested text := by
  simp only [nested_iff_run, isTop_iff, exists_eq_right]

/-- A text that is cut into pieces has been read to its end. -/
theorem run_of_topPieces {separator : Char} {n : Nesting} {text : List Char}
    {pieces : List (List Char)} (h : topPieces separator n text = some pieces) :
    n.run text = some start := by
  induction text generalizing n pieces with
  | nil =>
    rw [topPieces] at h
    split at h
    · rename_i htop
      rw [run_nil, (isTop_iff n).mp htop]
    · contradiction
  | cons c text ih =>
    rw [topPieces] at h
    split at h
    · contradiction
    · rename_i next hstep
      obtain ⟨more, hmore, -⟩ := Option.map_eq_some_iff.mp h
      rw [run_cons, hstep, Option.bind_some]
      exact ih hmore

/-! ## 3. The three scans -/

theorem closingPlace?_eq_some_iff (text : List Char) (i : Nat) :
    closingPlace? ('(' :: text) = some i ↔
      ('(' :: text)[i]? = some ')' ∧ Nested ((('(' :: text).take i).drop 1) := by
  have hplace : closingPlace? ('(' :: text) = some i ↔
      ∃ inner after, text = inner ++ ')' :: after ∧ Nested inner ∧ inner.length + 1 = i := by
    simp only [closingPlace?, Option.map_eq_some_iff, Prod.exists, closeGroup_eq_some_iff,
      and_assoc]
  rw [hplace]
  cases i with
  | zero => simp
  | succ i =>
    -- the parenthesis in front is the one place that is never the closing one
    have htop := topAt_iff_exists ')' text i
    rw [List.getElem?_cons_succ, List.take_succ_cons, List.drop_succ_cons, List.drop_zero]
    rw [TopAt] at htop
    rw [htop]
    simp only [Nat.add_right_cancel_iff, and_comm]

theorem topPieces_eq_none_iff {separator : Char} (hsep : isOrdinary separator = true)
    (text : List Char) : topPieces separator start text = none ↔ ¬ Nested text := by
  rw [← not_iff_not, not_not, ← ne_eq, Option.ne_none_iff_exists']
  constructor
  · rintro ⟨pieces, hpieces⟩
    exact (nested_iff_run text).mpr (run_of_topPieces hpieces)
  · intro h
    obtain ⟨pieces, hpieces⟩ := exists_pieces separator hsep h
    exact ⟨pieces, (topPieces_eq_some_iff hsep h pieces).mpr hpieces⟩

theorem topPlace?_eq_some_iff {target : Char} (htarget : isOrdinary target = true)
    (text : List Char) (i : Nat) :
    topPlace? target text = some i ↔ TopAt target text i ∧ ∀ j < i, ¬ TopAt target text j := by
  have hplace : topPlace? target text = some i ↔ ∃ before after,
      text = before ++ target :: after ∧ Nested before ∧ ¬ OnTop target before ∧
        before.length = i := by
    simp only [topPlace?, Option.map_eq_some_iff, Prod.exists, topCut_eq_some_iff htarget,
      and_assoc]
  rw [hplace, topAt_iff_exists]
  constructor
  · rintro ⟨before, after, rfl, hnested, hfirst, rfl⟩
    exact ⟨⟨before, after, rfl, rfl, hnested⟩, (not_onTop_iff_forall_lt _ _ _).mp hfirst⟩
  · rintro ⟨⟨before, after, rfl, rfl, hnested⟩, hfirst⟩
    exact ⟨before, after, rfl, hnested, (not_onTop_iff_forall_lt _ _ _).mpr hfirst, rfl⟩

theorem topPlace?_eq_none_iff {target : Char} (htarget : isOrdinary target = true)
    (text : List Char) : topPlace? target text = none ↔ ∀ i, ¬ TopAt target text i := by
  constructor
  · intro hnone i hi
    -- where there is a place there is a least one, and that is found
    have hleast : ∃ i, TopAt target text i := ⟨i, hi⟩
    have hfound := (topPlace?_eq_some_iff htarget text (Nat.find hleast)).mpr
      ⟨Nat.find_spec hleast, fun j hj => Nat.find_min hleast hj⟩
    rw [hnone] at hfound
    contradiction
  · intro hnone
    rw [Option.eq_none_iff_forall_ne_some]
    intro i hi
    exact hnone i ((topPlace?_eq_some_iff htarget text i).mp hi).1

/-- The reading accepts the nested texts, and the scans stop where the grammar says: at the one
parenthesis that closes the first, at the separators on top, and at the least place of a character
on top.  Inside a nested text nothing is refused. -/
theorem scans_follow_grammar (text : List Char) :
    ((∃ n, start.run text = some n ∧ n.isTop = true) ↔ Nested text) ∧
      (text.head? = some '(' →
        (∀ i, closingPlace? text = some i ↔ text[i]? = some ')' ∧ Nested ((text.take i).drop 1)) ∧
          ∀ i j, text[i]? = some ')' ∧ Nested ((text.take i).drop 1) →
            text[j]? = some ')' ∧ Nested ((text.take j).drop 1) → i = j) ∧
      (topPieces ',' start text = none ↔ ¬ Nested text) ∧
      (∀ pieces, topPieces ',' start text = some pieces → pieces ≠ [] ∧ join [','] pieces = text ∧
        ∀ piece ∈ pieces, Nested piece ∧ ¬ OnTop ',' piece) ∧
      (∀ target, isOrdinary target = true →
        (∀ i, topPlace? target text = some i ↔
          TopAt target text i ∧ ∀ j < i, ¬ TopAt target text j) ∧
        (topPlace? target text = none ↔ ∀ i, ¬ TopAt target text i)) ∧
      (Nested text → ∀ i, ∃ n, start.run (text.take i) = some n) := by
  refine ⟨exists_isTop_iff_nested text, ?_, topPieces_eq_none_iff rfl text, ?_, ?_,
    Nested.exists_run⟩
  · intro hopen
    obtain ⟨rest, rfl⟩ := List.head?_eq_some_iff.mp hopen
    have hplace := closingPlace?_eq_some_iff rest
    refine ⟨hplace, fun i j hi hj => ?_⟩
    -- two such places are both the one that the scan gives
    rw [← hplace] at hi hj
    exact Option.some.inj (hi.symm.trans hj)
  · intro pieces hpieces
    have hnested := (nested_iff_run text).mpr (run_of_topPieces hpieces)
    obtain ⟨hne, hjoin, hpiece⟩ := (topPieces_eq_some_iff rfl hnested pieces).mp hpieces
    exact ⟨hne, hjoin.symm, hpiece⟩
  · intro target htarget
    exact ⟨topPlace?_eq_some_iff htarget text, topPlace?_eq_none_iff htarget text⟩

def quotedGroupSample : List Char :=
  "(a, ')', [b])=c,d".toList

theorem scans_follow_grammar_quotedGroupSample :
    quotedGroupSample.head? = some '(' ∧ isOrdinary '=' = true ∧ Nested quotedGroupSample ∧
      closingPlace? quotedGroupSample = some 12 ∧ topPlace? '=' quotedGroupSample = some 13 ∧
      ∃ n, start.run (quotedGroupSample.take 6) = some n := by
  obtain ⟨-, hclose, -, -, hplace, hrun⟩ := scans_follow_grammar quotedGroupSample
  have hopen : quotedGroupSample.head? = some '(' := rfl
  have hordinary : isOrdinary '=' = true := rfl
  have hnested : Nested quotedGroupSample := by decide
  refine ⟨hopen, hordinary, hnested, ((hclose hopen).1 12).mpr (by decide),
    ((hplace '=' hordinary).1 13).mpr (by decide), hrun hnested 6⟩

end ModuleSurface.Signature
