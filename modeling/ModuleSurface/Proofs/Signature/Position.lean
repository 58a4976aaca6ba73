import ModuleSurface.Proofs.Signature.Grammar

/-!
# Position — a fault is told about the first slot that cannot be read

Between parentheses slots are read from the left (`ofChars_enclose`), and a reading goes on only as
long as every slot so far is fine.  So a fault names the first slot that cannot be read behind those
before it, and whatever stands behind that slot makes no difference (`parse_enclose_of_error`).
-/

namespace ModuleSurface

/-- The place between commas that a fault is told about. -/
def SignatureFault.position? : SignatureFault → Option Nat
  | emptyParameter position | misplacedSlash position | afterVarKeyword position => some position
  | missingParen _ | unbalanced _ | trailingText _ => none

namespace Signature

open Text (trim join AllBlank isBlank trim_eq_nil_iff isEmpty_trim_iff exists_trim_append)

/-! ## 1. Slots in parentheses -/

instance (separator : Char) : DecidablePred (IsPiece separator) :=
  fun _ => inferInstanceAs (Decidable (_ ∧ _))

/-- The text of some slots in parentheses, with something behind them. -/
def enclose (slots : List (List Char)) (after : List Char) : List Char :=
  '(' :: join [','] slots ++ ')' :: after

/-- What reading slots gives.  If there is nothing but blanks between the parentheses, they are
none. -/
def readSlots (slots : List (List Char)) : Except SignatureFault (List Parameter) :=
  if (trim (join [','] slots)).isEmpty then .ok []
  else (Reading.start.takeAll 0 slots).map (·.parameters)

theorem exists_trim_enclose (slots : List (List Char)) (after : List Char) :
    ∃ more, trim (enclose slots after) = enclose slots more ∧ trim more = trim after := by
  have hopen : trim ['('] = ['('] := by decide
  have hclose : trim [')'] = [')'] := by decide
  have htrim : trim ('(' :: join [','] slots ++ [')']) = '(' :: join [','] slots ++ [')'] :=
    Text.trim_eq_self_of_ends hopen hclose (by simp) (by simp) (by simp) (List.suffix_append _ _)
  obtain ⟨more, hmore, -, hafter⟩ := exists_trim_append htrim (by simp) after
  rw [List.append_assoc, List.append_assoc] at hmore
  exact ⟨more, hmore, hafter⟩

theorem readReturns_congr {after after' : List Char} (h : trim after = trim after') :
    readReturns after = readReturns after' := by
  unfold readReturns
  rw [h]

theorem readParameters_join (whole : List Char) {slots : List (List Char)}
    (hslots : ∀ slot ∈ slots, IsPiece ',' slot) :
    readParameters whole (join [','] slots) = readSlots slots := by
  unfold readParameters readSlots
  by_cases hblank : (trim (join [','] slots)).isEmpty = true
  · rw [if_pos hblank, if_pos hblank]
  · have hne : slots ≠ [] := by
      rintro rfl
      exact hblank rfl
    rw [if_neg hblank, if_neg hblank, topPieces_join rfl hne hslots]
    dsimp only
    cases Reading.start.takeAll 0 slots <;> rfl

/-- The text of slots in parentheses is read slot by slot, once what stands behind is read. -/
theorem ofChars_enclose {slots : List (List Char)} (hslots : ∀ slot ∈ slots, IsPiece ',' slot)
    (after : List Char) :
    ofChars (enclose slots after) = (do
      let returns ← readReturns after
      let parameters ← readSlots slots
      return { parameters, returns }) := by
  -- trimming the whole text may shorten what stands behind the parentheses, and nothing else
  obtain ⟨more, htrim, hmore⟩ := exists_trim_enclose slots after
  have hclose : closeGroup ⟨[')'], .outside⟩ (join [','] slots ++ ')' :: more) =
      some (join [','] slots, more) :=
    (closeGroup_eq_some_iff _ _ _).mpr
      ⟨rfl, nested_join rfl fun slot hslot => (hslots slot hslot).1⟩
  rw [ofChars, htrim]
  simp only [enclose, List.cons_append, hclose]
  rw [readReturns_congr hmore, readParameters_join _ hslots]

/-- One blank slot and nothing else is no slot at all. -/
def IsVoid (slots : List (List Char)) : Prop :=
  ∃ slot, slots = [slot] ∧ AllBlank slot

theorem isEmpty_trim_join_iff {slots : List (List Char)} :
    (trim (join [','] slots)).isEmpty = true ↔ slots = [] ∨ IsVoid slots := by
  rw [isEmpty_trim_iff]
  cases slots with
  | nil => simp [join, AllBlank]
  | cons slot more =>
    cases more with
    | nil => simp [join, IsVoid]
    | cons second more =>
      -- there is a comma, which is not blank
      simp only [reduceCtorEq, IsVoid, List.cons.injEq, false_or, and_false, false_and,
        exists_false, iff_false, Text.join_cons_cons]
      intro hblank
      have hcomma := hblank ',' (by simp)
      contradiction

/-! ## 2. The first slot that cannot be read -/

namespace Reading

/-- A slot that cannot be read is the one that the fault names. -/
theorem position?_of_take {r : Reading} {position : Nat} {slot : Slot} {fault : SignatureFault}
    (h : r.take position slot = .error fault) : fault.position? = some position := by
  have hadd : ∀ {kind : ParameterKind} {body : List Char},
      r.add position kind body = .error fault → fault.position? = some position := by
    intro kind body h
    unfold add at h
    split at h
    · rw [← Except.error.inj h]
      rfl
    · contradiction
  -- every fault of a slot is made with the position that the slot is taken at
  cases slot with
  | blank =>
    rw [← Except.error.inj h]
    rfl
  | slash | star =>
    rw [take] at h
    split at h
    · rw [← Except.error.inj h]
      rfl
    · contradiction
  | varKeyword body | varPositional body | plain body =>
    rw [take] at h
    split at h
    · rw [← Except.error.inj h]
      rfl
    · exact hadd h

/-- A run that fails has read some slots, and then come to one that it fails at whatever follows. -/
theorem exists_of_takeAll_eq_error {r : Reading} {position : Nat} {slots : List (List Char)}
    {fault : SignatureFault} (h : r.takeAll position slots = .error fault) :
    ∃ k < slots.length, fault.position? = some (position + k) ∧
      (∃ last, r.takeAll position (slots.take k) = .ok last) ∧
      ∀ more, r.takeAll position (slots.take (k + 1) ++ more) = .error fault := by
  -- either the first slot cannot be read, or the fault is one of a run over the others
  induction slots generalizing r position with
  | nil => contradiction
  | cons slot slots ih =>
    simp only [takeAll, bind, Except.bind] at h
    cases htake : r.take position (.ofText (trim slot)) with
    | error other =>
      rw [htake] at h
      rw [Except.error.inj h] at htake
      refine ⟨0, by simp, position?_of_take htake, ⟨r, rfl⟩, fun more => ?_⟩
      simp only [List.take_succ_cons, List.cons_append, takeAll, htake, bind, Except.bind]
    | ok next =>
      rw [htake] at h
      obtain ⟨k, hk, hposition, ⟨last, hlast⟩, hmore⟩ := ih h
      refine ⟨k + 1, by simpa using hk, ?_, ⟨last, ?_⟩, fun more => ?_⟩
      · rw [hposition, Nat.add_assoc, Nat.add_comm 1]
      · simp only [List.take_succ_cons, takeAll, htake, bind, Except.bind, hlast]
      · have hrest := hmore more
        simp only [List.take_succ_cons, List.cons_append, takeAll, htake, bind, Except.bind]
        exact hrest

end Reading

theorem readSlots_of_isVoid {slots : List (List Char)} (h : IsVoid slots) :
    readSlots slots = .ok [] := by
  rw [readSlots, if_pos (isEmpty_trim_join_iff.mpr (.inr h))]

theorem readSlots_of_ok {slots : List (List Char)} {last : Reading}
    (h : Reading.start.takeAll 0 slots = .ok last) :
    ∃ parameters, readSlots slots = .ok parameters := by
  unfold readSlots
  split
  · exact ⟨_, rfl⟩
  · exact ⟨_, by rw [h]; rfl⟩

theorem readSlots_eq_error_iff {slots : List (List Char)} {fault : SignatureFault} :
    readSlots slots = .error fault ↔
      ¬IsVoid slots ∧ Reading.start.takeAll 0 slots = .error fault := by
  unfold readSlots
  split
  · rename_i hempty
    rcases isEmpty_trim_join_iff.mp hempty with rfl | hvoid
    · simp [Reading.takeAll]
    · simp [hvoid]
  · rename_i hempty
    have hvoid : ¬IsVoid slots := fun hvoid => hempty (isEmpty_trim_join_iff.mpr (.inr hvoid))
    cases Reading.start.takeAll 0 slots <;> simp [Except.map, hvoid]

/-- If slots in parentheses cannot be read, the fault names one of them, those before it can be
read, and the fault is the same whatever slots stand behind it.  Only a single blank slot becomes
readable when nothing stands behind it: it is the empty list of parameters. -/
theorem parse_enclose_of_error {slots : List (List Char)} {after : List Char}
    {returns : Option String} {fault : SignatureFault}
    (hslots : ∀ slot ∈ slots, IsPiece ',' slot) (hafter : Returns after returns)
    (h : parse (String.ofList (enclose slots after)) = .error fault) :
    ∃ k < slots.length, fault.position? = some k ∧
      (∃ s, parse (String.ofList (enclose (slots.take k) after)) = .ok s) ∧
      ∀ more, (∀ slot ∈ more, IsPiece ',' slot) →
        (¬IsVoid (slots.take (k + 1) ++ more) →
          parse (String.ofList (enclose (slots.take (k + 1) ++ more) after)) = .error fault) ∧
        (IsVoid (slots.take (k + 1) ++ more) →
          parse (String.ofList (enclose (slots.take (k + 1) ++ more) after)) =
            .ok ⟨[], returns⟩) := by
  -- with the return annotation fine, parsing is reading the slots
  have hparse : ∀ others, (∀ slot ∈ others, IsPiece ',' slot) →
      parse (String.ofList (enclose others after)) =
        (readSlots others).map fun parameters => ⟨parameters, returns⟩ := by
    intro others hothers
    rw [parse, String.toList_ofList, ofChars_enclose hothers,
      (readReturns_eq_ok_iff after returns).mpr hafter]
    cases readSlots others <;> rfl
  have htake : ∀ k, ∀ slot ∈ slots.take k, IsPiece ',' slot :=
    fun k slot hslot => hslots slot (List.mem_of_mem_take hslot)
  rw [hparse slots hslots] at h
  have hread : readSlots slots = .error fault := by
    cases hread : readSlots slots with
    | error other =>
      rw [hread] at h
      rw [Except.error.inj h]
    | ok parameters =>
      rw [hread] at h
      contradiction
  obtain ⟨-, hall⟩ := readSlots_eq_error_iff.mp hread
  obtain ⟨k, hk, hposition, ⟨last, hlast⟩, hmore⟩ := Reading.exists_of_takeAll_eq_error hall
  refine ⟨k, hk, by rwa [Nat.zero_add] at hposition, ?_, fun more hpieces => ?_⟩
  · obtain ⟨parameters, hparameters⟩ := readSlots_of_ok hlast
    exact ⟨⟨parameters, returns⟩, by rw [hparse _ (htake k), hparameters]; rfl⟩
  · have hothers : ∀ slot ∈ slots.take (k + 1) ++ more, IsPiece ',' slot := by
      intro slot hslot
      exact (List.mem_append.mp hslot).elim (htake _ slot) (hpieces slot)
    rw [hparse _ hothers]
    constructor
    · intro hvoid
      rw [readSlots_eq_error_iff.mpr ⟨hvoid, hmore more⟩]
      rfl
    · intro hvoid
      rw [readSlots_of_isVoid hvoid]
      rfl

/-- Slots with a second slash behind a double star, and one more slot. -/
def slashedSample : List (List Char) :=
  ["a: '),'".toList, " /".toList, " **rest".toList, " / ".toList, " b".toList]

theorem parse_enclose_slashedSample :
    (∀ slot ∈ slashedSample, IsPiece ',' slot) ∧ Returns "-> int".toList (some "int") ∧
      parse (String.ofList (enclose slashedSample "-> int".toList)) =
        .error (.misplacedSlash 3) ∧
      (∃ s, parse (String.ofList (enclose (slashedSample.take 3) "-> int".toList)) = .ok s) ∧
      ∀ more, (∀ slot ∈ more, IsPiece ',' slot) →
        parse (String.ofList (enclose (slashedSample.take 4 ++ more) "-> int".toList)) =
          .error (.misplacedSlash 3) := by
  have hslots : ∀ slot ∈ slashedSample, IsPiece ',' slot := by decide +kernel
  have hafter : Returns "-> int".toList (some "int") :=
    (readReturns_eq_ok_iff _ _).mp (by rfl)
  have hparse : parse (String.ofList (enclose slashedSample "-> int".toList)) =
      .error (.misplacedSlash 3) := by rfl
  obtain ⟨k, -, hposition, hfront, hmore⟩ := parse_enclose_of_error hslots hafter hparse
  obtain rfl : 3 = k := Option.some.inj hposition
  refine ⟨hslots, hafter, hparse, hfront, fun more hpieces => (hmore more hpieces).1 ?_⟩
  -- four slots are not a single blank one
  rintro ⟨slot, hsingle, -⟩
  have hlength := congrArg List.length hsingle
  simp [slashedSample] at hlength

end Signature

end ModuleSurface
