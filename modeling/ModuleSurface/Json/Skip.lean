import ModuleSurface.Json.Scan

/-!
# Skip — reading past a value that nobody wants

The value may be nested to any depth, so the open brackets are kept in a list.  Reading past a
value means reading its first token, and then whatever the open brackets still ask for.
-/

namespace ModuleSurface.Json

inductive Opened
  | list
  | record
  deriving DecidableEq, Repr

namespace Opened

def closer : Opened → Char
  | list => ']'
  | record => '}'

/-- What the end of the text would cut short. -/
def construct : Opened → Construct
  | list => .list
  | record => .object

/-- The cause of a fault when neither a comma nor the closing bracket follows an item. -/
def expectedEnd : Opened → Cause
  | list => .expectedItemEnd
  | record => .expectedMemberEnd

end Opened

def skipKey (text : List Piece) : Except Fault (List Piece) :=
  match skipBlank text with
  | [] => .error (.ended .object)
  | .char '"' :: rest => do
      let rest ← skipString rest
      match skipBlank rest with
      | [] => throw (.ended .object)
      | .char ':' :: rest => return rest
      | other => throw (.next .expectedColon other)
  | other => .error (.next .keyNotText other)

/-- Reads past what an opened bracket holds before the value of its next item. -/
def skipToValue (opened : Opened) (text : List Piece) : Except Fault (List Piece) :=
  match opened with
  | .list => .ok text
  | .record => skipKey text

/-- Reads past a value that is neither a list nor a record, from its first piece on. -/
def skipScalar : List Piece → Except Fault (List Piece)
  | [] => .error (.ended .value)
  | .char 'n' :: rest => readWord ['u', 'l', 'l'] rest
  | .char 't' :: rest => readWord ['r', 'u', 'e'] rest
  | .char 'f' :: rest => readWord ['a', 'l', 's', 'e'] rest
  | .char '"' :: rest => skipString rest
  | .char '-' :: rest => (readNumberText false rest).map (·.2)
  | piece :: rest =>
      if (digitValue? piece).isSome then (readNumberText false (piece :: rest)).map (·.2)
      else .error (.next .expectedValue (piece :: rest))

def opening? : Piece → Option Opened
  | .char '[' => some .list
  | .char '{' => some .record
  | _ => none

/-! ## 1. What is read past is gone -/

theorem skipKey_length {text rest : List Piece} (h : skipKey text = .ok rest) :
    rest.length < text.length := by
  have hblank := skipBlank_length text
  simp only [skipKey, bind, Except.bind, pure, Except.pure, throw, throwThe,
    MonadExceptOf.throw] at h
  split at h
  · simp at h
  · rename_i tail hskip
    rw [hskip] at hblank
    split at h
    · simp at h
    · rename_i after hafter
      have h1 := skipString_length hafter
      have h2 := skipBlank_length after
      split at h
      · simp at h
      · rename_i last hlast
        rw [hlast] at h2
        simp only [Except.ok.injEq] at h
        simp only [List.length_cons] at hblank h2
        rw [← h]
        omega
      · simp at h
  · simp at h

theorem skipToValue_length {opened : Opened} {text rest : List Piece}
    (h : skipToValue opened text = .ok rest) : rest.length ≤ text.length := by
  cases opened with
  | list =>
    simp only [skipToValue, Except.ok.injEq] at h
    exact Nat.le_of_eq (congrArg _ h.symm)
  | record => exact Nat.le_of_lt (skipKey_length h)

theorem skipScalar_length {text rest : List Piece} (h : skipScalar text = .ok rest) :
    rest.length < text.length := by
  have hnumber : ∀ {t : List Piece}, (readNumberText false t).map (·.2) = .ok rest →
      rest.length < t.length := by
    intro t ht
    cases hread : readNumberText false t with
    | error fault => simp [hread, Except.map] at ht
    | ok found =>
      have := readNumberText_length hread
      simp only [hread, Except.map, Except.ok.injEq] at ht
      rw [← ht]
      exact this
  unfold skipScalar at h
  split at h
  · simp at h
  · exact Nat.lt_succ_of_le (readWord_length h)
  · exact Nat.lt_succ_of_le (readWord_length h)
  · exact Nat.lt_succ_of_le (readWord_length h)
  · exact Nat.lt_succ_of_lt (skipString_length h)
  · exact Nat.lt_succ_of_lt (hnumber h)
  · split at h
    · exact hnumber h
    · simp at h

/-! ## 2. Reading past a value -/

mutual

/-- Reads past a value and past the rest of the brackets that are open around it, the innermost
first. -/
def skipValue (opened : List Opened) (text : List Piece) : Except Fault (List Piece) :=
  match _h : skipBlank text with
  | [] => .error (.ended .value)
  | piece :: rest =>
      match opening? piece with
      | none =>
          match _hs : skipScalar (piece :: rest) with
          | .error fault => .error fault
          | .ok after => skipRest opened after
      | some bracket =>
          match _hb : skipBlank rest with
          | [] => .error (.ended bracket.construct)
          | next :: after =>
              if next = .char bracket.closer then skipRest opened after
              else
                match _hk : skipToValue bracket (next :: after) with
                | .error fault => .error fault
                | .ok item => skipValue (bracket :: opened) item
termination_by text.length
decreasing_by
  all_goals
    have h1 := skipBlank_length text
    rw [_h] at h1
    simp only [List.length_cons] at h1
  · have h2 := skipScalar_length _hs
    simp only [List.length_cons] at h2
    omega
  all_goals
    have h2 := skipBlank_length rest
    rw [_hb] at h2
    simp only [List.length_cons] at h2
  · omega
  · have h3 := skipToValue_length _hk
    simp only [List.length_cons] at h3
    omega

/-- Reads past the rest of the brackets that are open, behind an item of the innermost. -/
def skipRest (opened : List Opened) (text : List Piece) : Except Fault (List Piece) :=
  match opened with
  | [] => .ok text
  | bracket :: outer =>
      match _h : skipBlank text with
      | [] => .error (.ended bracket.construct)
      | next :: after =>
          if next = .char bracket.closer then skipRest outer after
          else if next = .char ',' then
            match _hk : skipToValue bracket after with
            | .error fault => .error fault
            | .ok item => skipValue (bracket :: outer) item
          else .error (.next bracket.expectedEnd (next :: after))
termination_by text.length
decreasing_by
  all_goals
    have h1 := skipBlank_length text
    rw [_h] at h1
    simp only [List.length_cons] at h1
  · omega
  · have h2 := skipToValue_length _hk
    omega

end

def skip (text : List Piece) : Except Fault (List Piece) :=
  skipValue [] text

end ModuleSurface.Json
