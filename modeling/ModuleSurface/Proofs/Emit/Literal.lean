import Mathlib.Data.List.Induction
import ModuleSurface.Emit.Docstring
import ModuleSurface.Proofs.Text.Split

/-!
# Literal — how a literal of three double quotes is read

A backslash takes the next character with it, and the first three double quotes in a row that no
backslash stands before end the literal (`scan?`).  Escaped text is passed over as it was written
and gives its original back (`passes_escapePart`, `unescape_escapePart`), unless a run of one or two
quotes at its end was left alone and a quote follows.  In the escaped form of a whole text no such
run is left alone, so that it makes a literal of which nothing is lost (`readLiteral?_escape`).
-/

namespace ModuleSurface.Docstring

/-! ## 1. Reading -/

def quotes : List Char :=
  ['"', '"', '"']

/-- What a literal holds, from behind its opening quotes on, and what follows its closing quotes. -/
def scan? : List Char → Option (List Char × List Char)
  | [] => none
  | '\\' :: c :: rest => (scan? rest).map fun (inside, after) => ('\\' :: c :: inside, after)
  | '"' :: '"' :: '"' :: rest => some ([], rest)
  | c :: rest => (scan? rest).map fun (inside, after) => (c :: inside, after)

def unescape : List Char → List Char
  | [] => []
  | '\\' :: '\\' :: rest => '\\' :: unescape rest
  | '\\' :: '"' :: rest => '"' :: unescape rest
  | c :: rest => c :: unescape rest

def prepend (text : List Char) (found : List Char × List Char) : List Char × List Char :=
  (text ++ found.1, found.2)

/-- A text that is passed over before any rest that fits. -/
def Passes (text rest : List Char) : Prop :=
  scan? (text ++ rest) = (scan? rest).map (prepend text)

theorem passes_nil (rest : List Char) : Passes [] rest := by
  unfold Passes
  show scan? rest = _
  cases scan? rest <;> rfl

theorem Passes.append {left right rest : List Char} (hleft : Passes left (right ++ rest))
    (hright : Passes right rest) : Passes (left ++ right) rest := by
  unfold Passes at *
  rw [List.append_assoc, hleft, hright, Option.map_map]
  congr 1
  funext found
  simp [prepend]

theorem scan?_cons {c : Char} {rest : List Char} (hescape : c ≠ '\\')
    (hquote : c = '"' → ¬ ['"', '"'] <+: rest) :
    scan? (c :: rest) = (scan? rest).map (prepend [c]) := by
  rw [scan?]
  · rfl
  · intro d tail hc _
    exact hescape hc
  · intro tail hc hrest
    apply hquote hc
    rw [hrest]
    exact List.prefix_append ['"', '"'] tail

theorem passes_ordinary {c : Char} (hescape : c ≠ '\\') (hquote : c ≠ '"') (rest : List Char) :
    Passes [c] rest :=
  scan?_cons hescape fun h => absurd h hquote

theorem passes_pair (c : Char) (rest : List Char) : Passes ['\\', c] rest := by
  unfold Passes
  show scan? ('\\' :: c :: rest) = _
  rw [scan?]
  rfl

theorem scan?_quotes (after : List Char) : scan? (quotes ++ after) = some ([], after) := by
  show scan? ('"' :: '"' :: '"' :: after) = _
  rw [scan?]

theorem scan?_of_passes {body after : List Char} (h : Passes body (quotes ++ after)) :
    scan? (body ++ (quotes ++ after)) = some (body, after) := by
  unfold Passes at h
  rw [h, scan?_quotes]
  simp [prepend]

theorem eq_append_of_scan? {text inside after : List Char}
    (h : scan? text = some (inside, after)) : text = inside ++ (quotes ++ after) := by
  fun_induction scan? text generalizing inside with
  | case1 => simp at h
  | case2 c rest ih =>
    obtain ⟨⟨tail, found⟩, hscan, hfound⟩ := Option.map_eq_some_iff.mp h
    obtain ⟨rfl, rfl⟩ := Prod.mk.inj hfound
    rw [ih hscan]
    rfl
  | case3 rest =>
    obtain ⟨rfl, rfl⟩ := Prod.mk.inj (Option.some.inj h)
    rfl
  | case4 c rest _ _ ih =>
    obtain ⟨⟨tail, found⟩, hscan, hfound⟩ := Option.map_eq_some_iff.mp h
    obtain ⟨rfl, rfl⟩ := Prod.mk.inj hfound
    rw [ih hscan]
    rfl

/-! ## 2. Escaped text by its parts -/

/-- The escaped form of a part of a text that stands behind `pending` double quotes, with these
quotes; the part may be the last one. -/
def escapePart (last : Bool) (pending : Nat) : List Char → List Char
  | [] => writeRun (last || pending ≥ 3) pending
  | c :: rest =>
      if c = '"' then escapePart last (pending + 1) rest
      else
        writeRun (pending ≥ 3) pending ++ (if c = '\\' then ['\\', '\\'] else [c]) ++
          escapePart last 0 rest

theorem escapeFrom_eq_escapePart (pending : Nat) (text : List Char) :
    escapeFrom pending text = escapePart true pending text := by
  induction text generalizing pending with
  | nil => simp [escapeFrom, escapePart, needsEscape]
  | cons c rest ih => simp only [escapeFrom, escapePart, needsEscape, List.isEmpty_cons,
      Bool.or_false, ih]

/-- Between two parts stands no run of quotes, so that they are escaped apart. -/
theorem escapePart_append {c : Char} (hquote : c ≠ '"') (last : Bool) (pending : Nat)
    (line rest : List Char) :
    escapePart last pending (line ++ c :: rest) =
      escapePart false pending line ++ escapePart last 0 (c :: rest) := by
  induction line generalizing pending with
  | nil => simp [escapePart, hquote, writeRun]
  | cons d line ih =>
    rw [List.cons_append, escapePart, escapePart]
    by_cases hd : d = '"'
    · rw [if_pos hd, if_pos hd, ih]
    · rw [if_neg hd, if_neg hd, ih, List.append_assoc, List.append_assoc, List.append_assoc]

theorem escapePart_cons {c : Char} (hquote : c ≠ '"') (hescape : c ≠ '\\') (last : Bool)
    (rest : List Char) : escapePart last 0 (c :: rest) = c :: escapePart last 0 rest := by
  simp [escapePart, hquote, hescape, writeRun]

theorem mem_writeRun {c : Char} (hquote : c ≠ '"') (hescape : c ≠ '\\') (escaped : Bool)
    (run : Nat) : c ∉ writeRun escaped run := by
  induction run with
  | zero => simp [writeRun]
  | succ run ih => cases escaped <;> simp [writeRun, hquote, hescape, ih]

/-- Escaping neither makes nor takes away other characters than backslashes and quotes. -/
theorem mem_escapePart_iff {c : Char} (hquote : c ≠ '"') (hescape : c ≠ '\\') (last : Bool)
    (pending : Nat) (line : List Char) : c ∈ escapePart last pending line ↔ c ∈ line := by
  induction line generalizing pending with
  | nil => simp [escapePart, mem_writeRun hquote hescape]
  | cons d line ih =>
    rw [escapePart]
    by_cases hd : d = '"'
    · rw [if_pos hd, ih]
      simp [hd, hquote]
    · rw [if_neg hd]
      have hwritten : c ∈ (if d = '\\' then ['\\', '\\'] else [d]) ↔ c = d := by
        by_cases hslash : d = '\\'
        · simp [hslash, hescape]
        · simp [hslash]
      simp only [List.mem_append, List.mem_cons, ih, hwritten, mem_writeRun hquote hescape,
        false_or]

theorem getLast?_writeRun (escaped : Bool) (run : Nat) :
    (writeRun escaped run).getLast? = (List.replicate run '"').getLast? := by
  induction run with
  | zero => rfl
  | succ run ih =>
    have hlast : (List.replicate (run + 1) '"').getLast? = some '"' := by
      simp [List.getLast?_replicate]
    cases escaped <;> simp only [writeRun, List.getLast?_cons, ih, hlast] <;>
      simp [List.getLast?_replicate] <;> split <;> rfl

/-- Escaping keeps the last character. -/
theorem getLast?_escapePart (last : Bool) (pending : Nat) (line : List Char) :
    (escapePart last pending line).getLast? =
      (List.replicate pending '"' ++ line).getLast? := by
  induction line generalizing pending with
  | nil => rw [escapePart, getLast?_writeRun, List.append_nil]
  | cons c line ih =>
    rw [escapePart]
    by_cases hc : c = '"'
    · rw [if_pos hc, ih, hc, List.replicate_succ', List.append_assoc]
      rfl
    · rw [if_neg hc, List.getLast?_append, ih, List.replicate_zero, List.nil_append,
        List.getLast?_append, List.getLast?_append, List.getLast?_cons]
      by_cases hslash : c = '\\' <;> cases line.getLast? <;> simp [hslash]

/-! ## 3. Escaped text is read back -/

theorem passes_writeRun {escaped : Bool} {run : Nat} {rest : List Char}
    (h : escaped = true ∨ run < 3 ∧ rest.head? ≠ some '"') :
    Passes (writeRun escaped run) rest := by
  cases escaped with
  | true =>
    induction run with
    | zero => exact passes_nil rest
    | succ run ih => exact (passes_pair '"' _).append (ih (.inl rfl))
  | false =>
    -- one or two quotes close nothing unless the rest goes on with quotes
    obtain ⟨hrun, hrest⟩ : run < 3 ∧ rest.head? ≠ some '"' := by simpa using h
    have hone : Passes ['"'] rest := by
      apply scan?_cons (by decide)
      rintro - ⟨tail, rfl⟩
      exact hrest rfl
    have htwo : Passes (['"'] ++ ['"']) rest := by
      apply Passes.append _ hone
      apply scan?_cons (by decide)
      rintro - ⟨tail, htail⟩
      have hhead := congrArg List.head? (List.cons.inj htail).2
      exact hrest hhead.symm
    match run, hrun with
    | 0, _ => exact passes_nil rest
    | 1, _ => exact hone
    | 2, _ => exact htwo

theorem passes_escapePart {last : Bool} {rest : List Char}
    (h : last = true ∨ rest.head? ≠ some '"') (pending : Nat) (line : List Char) :
    Passes (escapePart last pending line) rest := by
  -- by induction on the line, from any number of quotes that are still to be written
  induction line generalizing pending with
  | nil =>
    apply passes_writeRun
    by_cases hrun : pending ≥ 3
    · exact .inl (by simp [hrun])
    · refine h.imp (by simp +contextual) fun hrest => ⟨by omega, hrest⟩
  | cons c line ih =>
    rw [escapePart]
    by_cases hc : c = '"'
    · rw [if_pos hc]
      exact ih (pending + 1)
    · rw [if_neg hc, List.append_assoc]
      apply Passes.append
      · -- the run ends here, with a character behind it that is no quote
        apply passes_writeRun
        by_cases hrun : pending ≥ 3
        · exact .inl (by simp [hrun])
        · refine .inr ⟨by omega, ?_⟩
          by_cases hslash : c = '\\' <;> simp [hslash, hc]
      · apply Passes.append _ (ih 0)
        by_cases hslash : c = '\\'
        · rw [if_pos hslash]
          exact passes_pair '\\' _
        · rw [if_neg hslash]
          exact passes_ordinary hslash hc _

theorem unescape_cons {c : Char} (hescape : c ≠ '\\') (rest : List Char) :
    unescape (c :: rest) = c :: unescape rest := by
  rw [unescape]
  · intro tail hc _
    exact hescape hc
  · intro tail hc _
    exact hescape hc

theorem unescape_writeRun (escaped : Bool) (run : Nat) (rest : List Char) :
    unescape (writeRun escaped run ++ rest) = List.replicate run '"' ++ unescape rest := by
  induction run with
  | zero => rfl
  | succ run ih =>
    cases escaped with
    | true =>
      show unescape ('\\' :: '"' :: (writeRun true run ++ rest)) = _
      rw [unescape, ih]
      rfl
    | false =>
      show unescape ('"' :: (writeRun false run ++ rest)) = _
      rw [unescape_cons (by decide), ih]
      rfl

theorem unescape_escapePart (last : Bool) (pending : Nat) (line rest : List Char) :
    unescape (escapePart last pending line ++ rest) =
      List.replicate pending '"' ++ line ++ unescape rest := by
  induction line generalizing pending with
  | nil => rw [escapePart, unescape_writeRun, List.append_nil]
  | cons c line ih =>
    rw [escapePart]
    by_cases hc : c = '"'
    · rw [if_pos hc, ih, hc, List.replicate_succ']
      simp
    · rw [if_neg hc, List.append_assoc, List.append_assoc, unescape_writeRun]
      by_cases hslash : c = '\\'
      · rw [if_pos hslash]
        show _ ++ unescape ('\\' :: '\\' :: (escapePart last 0 line ++ rest)) = _
        rw [unescape, ih, hslash]
        simp
      · rw [if_neg hslash, List.singleton_append, unescape_cons hslash, ih]
        simp

/-! ## 4. A run of quotes at the end -/

theorem exists_run (line : List Char) :
    ∃ front run, line = front ++ List.replicate run '"' ∧ front.getLast? ≠ some '"' := by
  induction line using List.reverseRecOn with
  | nil => exact ⟨[], 0, rfl, by simp⟩
  | append_singleton line c ih =>
    by_cases hc : c = '"'
    · obtain ⟨front, run, rfl, hfront⟩ := ih
      refine ⟨front, run + 1, ?_, hfront⟩
      rw [hc, List.replicate_succ', List.append_assoc]
    · exact ⟨line ++ [c], 0, by simp, by simp [hc]⟩

theorem escapePart_replicate (last : Bool) (pending run : Nat) :
    escapePart last pending (List.replicate run '"') =
      writeRun (last || pending + run ≥ 3) (pending + run) := by
  induction run generalizing pending with
  | zero => rfl
  | succ run ih =>
    rw [List.replicate_succ, escapePart, if_pos rfl, ih, Nat.add_assoc, Nat.add_comm 1 run]

theorem escapePart_run {front : List Char} (hfront : front.getLast? ≠ some '"') (run : Nat) :
    escapePart false 0 (front ++ List.replicate run '"') =
      escapePart false 0 front ++ writeRun (run ≥ 3) run := by
  induction front using List.reverseRecOn with
  | nil =>
    rw [List.nil_append, escapePart_replicate, Nat.zero_add, Bool.false_or]
    rfl
  | append_singleton front c _ =>
    have hc : c ≠ '"' := fun h => hfront (by simp [h])
    have hrun := escapePart_replicate false 0 run
    rw [Nat.zero_add, Bool.false_or] at hrun
    rw [List.append_assoc, List.singleton_append, escapePart_append hc, escapePart_append hc,
      List.append_assoc]
    simp only [escapePart, if_neg hc, hrun, writeRun, List.append_assoc, List.append_nil]

/-- A part that does not end in a quote is passed over even before quotes. -/
theorem passes_front {front : List Char} (hfront : front.getLast? ≠ some '"')
    (rest : List Char) : Passes (escapePart false 0 front) rest := by
  induction front using List.reverseRecOn with
  | nil => exact passes_nil rest
  | append_singleton front c _ =>
    have hc : c ≠ '"' := fun h => hfront (by simp [h])
    have hlast : escapePart false 0 [c] = if c = '\\' then ['\\', '\\'] else [c] := by
      simp [escapePart, hc, writeRun]
    rw [escapePart_append hc, hlast]
    apply Passes.append
    · apply passes_escapePart (.inr _)
      by_cases hslash : c = '\\' <;> simp [hslash, hc]
    · by_cases hslash : c = '\\'
      · rw [if_pos hslash]
        exact passes_pair '\\' rest
      · rw [if_neg hslash]
        exact passes_ordinary hslash hc rest

/-- Closing quotes directly behind a part that is not the last one end the literal there, unless
the part ends in one or two quotes. -/
theorem scan?_escapePart_quotes_iff {front : List Char} (hfront : front.getLast? ≠ some '"')
    (run : Nat) (after : List Char) :
    scan? (escapePart false 0 (front ++ List.replicate run '"') ++ (quotes ++ after)) =
        some (escapePart false 0 (front ++ List.replicate run '"'), after) ↔
      ¬ (run = 1 ∨ run = 2) := by
  rw [escapePart_run hfront]
  by_cases hrun : run = 1 ∨ run = 2
  · have hmany : (decide (run ≥ 3)) = false := by simp; omega
    have hquotes : writeRun false run ++ (quotes ++ after) =
        quotes ++ (List.replicate run '"' ++ after) := by
      rcases hrun with rfl | rfl <;> rfl
    have hscan := passes_front hfront (quotes ++ (List.replicate run '"' ++ after))
    unfold Passes at hscan
    rw [scan?_quotes, ← hquotes] at hscan
    -- the run is left over behind the literal
    rw [hmany, List.append_assoc, hscan]
    refine iff_of_false (fun h => ?_) (fun h => h hrun)
    have hlength := congrArg (fun found => (found.map fun f => f.2.length).getD 0) h
    simp [prepend] at hlength
    omega
  · have hpasses : Passes (writeRun (run ≥ 3) run) (quotes ++ after) := by
      by_cases hmany : run ≥ 3
      · exact passes_writeRun (.inl (by simp [hmany]))
      · rw [show run = 0 by omega]
        exact passes_nil _
    have hscan := (passes_front hfront _).append hpasses
    unfold Passes at hscan
    rw [hscan, scan?_quotes]
    refine iff_of_true ?_ hrun
    simp [prepend]

/-! ## 5. The literal of a whole text -/

/-- What the literal that a text begins with holds, and what follows it. -/
def readLiteral? : List Char → Option (List Char × List Char)
  | '"' :: '"' :: '"' :: rest => scan? rest
  | _ => none

/-- Texts in which every backslash is half of a pair, with a backslash or a double quote as the
other half. -/
inductive IsPaired : List Char → Prop
  | nil : IsPaired []
  | char {c : Char} {rest : List Char} (hc : c ≠ '\\') (hrest : IsPaired rest) :
      IsPaired (c :: rest)
  | pair {c : Char} {rest : List Char} (hc : c = '\\' ∨ c = '"') (hrest : IsPaired rest) :
      IsPaired ('\\' :: c :: rest)

theorem isPaired_writeRun (escaped : Bool) (run : Nat) {rest : List Char} (h : IsPaired rest) :
    IsPaired (writeRun escaped run ++ rest) := by
  induction run with
  | zero => exact h
  | succ run ih =>
    cases escaped with
    | true => exact .pair (.inr rfl) ih
    | false => exact .char (by decide) ih

theorem isPaired_escapePart (last : Bool) (pending : Nat) (line : List Char) :
    IsPaired (escapePart last pending line) := by
  induction line generalizing pending with
  | nil =>
    rw [escapePart, ← List.append_nil (writeRun _ _)]
    exact isPaired_writeRun _ _ .nil
  | cons c line ih =>
    rw [escapePart]
    by_cases hc : c = '"'
    · rw [if_pos hc]
      exact ih (pending + 1)
    · rw [if_neg hc, List.append_assoc]
      apply isPaired_writeRun
      by_cases hslash : c = '\\'
      · rw [if_pos hslash]
        exact .pair (.inl rfl) (ih 0)
      · rw [if_neg hslash]
        exact .char hslash (ih 0)

theorem unescape_escape (text : List Char) : unescape (escape text) = text := by
  have h := unescape_escapePart true 0 text []
  rw [List.append_nil] at h
  rw [escape, escapeFrom_eq_escapePart, h]
  show text ++ [] = text
  exact List.append_nil text

/-- Between double quotes, three on each side, the escaped form of a text is one literal that ends
with the last of them.  It has no backslashes but those of its escapes, and undoing these gives the
text back, so that no two texts have the same escaped form. -/
theorem readLiteral?_escape :
    (∀ text, readLiteral? (quotes ++ (escape text ++ quotes)) = some (escape text, []) ∧
      IsPaired (escape text) ∧ unescape (escape text) = text) ∧
      Function.Injective escape := by
  constructor
  · intro text
    have hescape : escape text = escapePart true 0 text := escapeFrom_eq_escapePart 0 text
    -- the run at the end of the text is escaped, so that it cannot join the closing quotes
    have hpasses : Passes (escape text) (quotes ++ []) := by
      rw [hescape]
      exact passes_escapePart (.inl rfl) 0 text
    refine ⟨?_, ?_, unescape_escape text⟩
    · show scan? (escape text ++ (quotes ++ [])) = _
      exact scan?_of_passes hpasses
    · rw [hescape]
      exact isPaired_escapePart true 0 text
  · intro text other h
    rw [← unescape_escape text, h, unescape_escape]

end ModuleSurface.Docstring
