import Mathlib.Data.List.Pairwise
import ModuleSurface.Proofs.Json.Slots

/-!
# Once — an object is a record if each key of the record occurs in it exactly once

The slots of a record do not disturb each other (`Independent`).  So what the members of an object
do to one slot depends on nothing but the members of its key, wherever they stand among the
others (`fillMembers_eq_some_iff`), and what a record stands for is a matter of the values of its
keys (`record?_eq_some_iff`).
-/

namespace ModuleSurface.Json

/-! ## 1. The values of a key -/

/-- The values that the members of an object give to a key, in their order. -/
def valuesOf (key : String) (members : List (List Char × Json)) : List Json :=
  (members.filter (·.1 == key.toList)).map (·.2)

theorem valuesOf_cons_self (key : String) (value : Json) (members : List (List Char × Json)) :
    valuesOf key ((key.toList, value) :: members) = value :: valuesOf key members := by
  rw [valuesOf, List.filter_cons_of_pos (by simp)]
  rfl

theorem valuesOf_cons_of_ne {key : String} {name : List Char} (h : key.toList ≠ name) (value : Json)
    (members : List (List Char × Json)) :
    valuesOf key ((name, value) :: members) = valuesOf key members := by
  rw [valuesOf, List.filter_cons_of_neg (by simpa using h.symm)]
  rfl

/-- The values of a record's fields in order: the record is a list of them, or an object in which
each key occurs exactly once. -/
inductive IsRecord (keys : List String) : Json → List Json → Prop
  | array {values : List Json} (hlength : values.length = keys.length) :
      IsRecord keys (.array values) values
  | object {members : List (List Char × Json)} {values : List Json}
      (honce : List.Forall₂ (fun key value => valuesOf key members = [value]) keys values) :
      IsRecord keys (.object members) values

/-! ## 2. Independent slots -/

variable {Draft α : Type}

namespace Slot

/-- Two slots that have keys of their own and do not disturb each other. -/
structure Apart (s t : Slot Draft) : Prop where
  key : s.key ≠ t.key
  get_left : ∀ draft value, s.get (t.set draft value) = s.get draft
  get_right : ∀ draft value, t.get (s.set draft value) = t.get draft

theorem Apart.symm {s t : Slot Draft} (h : s.Apart t) : t.Apart s :=
  ⟨h.key.symm, h.get_right, h.get_left⟩

/-- What a document is for one slot of a full draft. -/
def Holds (draft : Draft) (slot : Slot Draft) (document : Json) : Prop :=
  ∃ value, slot.meaning document = some value ∧ slot.get draft = some value

/-- What the members of an object do to one slot of a draft: nothing if none of them has its key,
and else exactly one has it and fills the slot. -/
def Takes (draft : Draft) (members : List (List Char × Json)) (last : Draft) (slot : Slot Draft) :
    Prop :=
  (valuesOf slot.key members = [] ∧ slot.get last = slot.get draft) ∨
    slot.get draft = none ∧ ∃ document, valuesOf slot.key members = [document] ∧
      slot.Holds last document

end Slot

open Slot (Apart Holds Takes)

/-- Slots that do not disturb each other and make up the whole draft. -/
structure Independent (slots : List (Slot Draft)) : Prop where
  apart : slots.Pairwise Apart
  ext : ∀ draft last : Draft, (∀ slot ∈ slots, slot.get draft = slot.get last) → draft = last

theorem Slot.eq_or_apart {slots : List (Slot Draft)} (h : slots.Pairwise Apart) {s t : Slot Draft}
    (hs : s ∈ slots) (ht : t ∈ slots) : s = t ∨ s.Apart t := by
  have : Std.Symm (@Apart Draft) := ⟨fun _ _ => Apart.symm⟩
  by_cases hst : s = t
  · exact .inl hst
  · exact .inr (h.forall hs ht hst)

theorem find?_key_eq_some {slots : List (Slot Draft)} {name : List Char} {slot : Slot Draft}
    (h : slots.find? (·.key.toList == name) = some slot) :
    slot ∈ slots ∧ slot.key.toList = name := by
  obtain ⟨hkey, -⟩ := List.find?_eq_some_iff_append.mp h
  exact ⟨List.mem_of_find?_eq_some h, by simpa using hkey⟩

theorem find?_key_eq_none {slots : List (Slot Draft)} {name : List Char}
    (h : slots.find? (·.key.toList == name) = none) :
    ∀ slot ∈ slots, slot.key.toList ≠ name := by
  simpa using h

/-! ## 3. Objects -/

/-- Every slot takes from the members of an object what they do to it. -/
theorem takes_of_fillMembers {slots : List (Slot Draft)} (hslots : slots.Pairwise Apart)
    {members : List (List Char × Json)} {draft last : Draft}
    (h : fillMembers slots draft members = some last) :
    ∀ slot ∈ slots, slot.Takes draft members last := by
  induction members generalizing draft with
  | nil =>
    intro slot _
    rw [← Option.some.inj h]
    exact .inl ⟨rfl, rfl⟩
  | cons member members ih =>
    obtain ⟨name, document⟩ := member
    intro slot hslot
    rw [fillMembers] at h
    split at h
    · rename_i hfind
      have hne := find?_key_eq_none hfind slot hslot
      rw [Takes, valuesOf_cons_of_ne hne]
      exact ih h slot hslot
    · rename_i found hfind
      obtain ⟨hfound, rfl⟩ := find?_key_eq_some hfind
      split at h
      · contradiction
      · rename_i hgiven
        obtain ⟨next, hnext, hmore⟩ := Option.bind_eq_some_iff.mp h
        obtain ⟨value, hvalue, rfl⟩ := Option.map_eq_some_iff.mp hnext
        have htakes := ih hmore slot hslot
        rcases Slot.eq_or_apart hslots hslot hfound with rfl | hapart
        · -- the slot is full now, so that no further member has its key
          rw [Takes, valuesOf_cons_self]
          rcases htakes with ⟨hnone, hlast⟩ | ⟨hempty, -⟩
          · refine .inr ⟨by simpa using hgiven, document, by rw [hnone], value, hvalue, ?_⟩
            rw [hlast, slot.get_set]
          · rw [slot.get_set] at hempty
            contradiction
        · have hne : slot.key.toList ≠ found.key.toList := fun h =>
            hapart.key (String.toList_inj.mp h)
          rw [Takes, valuesOf_cons_of_ne hne]
          rwa [Takes, hapart.get_left] at htakes

def Slot.MayTake (draft : Draft) (members : List (List Char × Json)) (slot : Slot Draft) : Prop :=
  valuesOf slot.key members = [] ∨
    slot.get draft = none ∧ ∃ document, valuesOf slot.key members = [document] ∧
      (slot.meaning document).isSome

theorem exists_fillMembers {slots : List (Slot Draft)} (hslots : slots.Pairwise Apart)
    {members : List (List Char × Json)} {draft : Draft}
    (h : ∀ slot ∈ slots, slot.MayTake draft members) :
    ∃ last, fillMembers slots draft members = some last := by
  induction members generalizing draft with
  | nil => exact ⟨draft, rfl⟩
  | cons member members ih =>
    obtain ⟨name, document⟩ := member
    rw [fillMembers]
    split
    · rename_i hfind
      refine ih fun slot hslot => ?_
      have hmay := h slot hslot
      rwa [Slot.MayTake, valuesOf_cons_of_ne (find?_key_eq_none hfind slot hslot)] at hmay
    · rename_i found hfind
      obtain ⟨hfound, rfl⟩ := find?_key_eq_some hfind
      have hmay := h found hfound
      rw [Slot.MayTake, valuesOf_cons_self] at hmay
      rcases hmay with hnil | ⟨hempty, taken, htaken, hsome⟩
      · contradiction
      · obtain ⟨rfl, hmore⟩ := List.cons.inj htaken
        obtain ⟨value, hvalue⟩ := Option.isSome_iff_exists.mp hsome
        rw [hempty, Slot.fill?, hvalue]
        refine ih fun slot hslot => ?_
        rcases Slot.eq_or_apart hslots hslot hfound with rfl | hapart
        · -- its only member was this one
          exact .inl hmore
        · have hne : slot.key.toList ≠ found.key.toList := fun h =>
            hapart.key (String.toList_inj.mp h)
          have hmay := h slot hslot
          rw [Slot.MayTake, valuesOf_cons_of_ne hne] at hmay
          rwa [Slot.MayTake, hapart.get_left]

/-- The members of an object lead from one draft to another if they do so slot by slot. -/
theorem fillMembers_eq_some_iff {slots : List (Slot Draft)} (hslots : Independent slots)
    (members : List (List Char × Json)) (draft last : Draft) :
    fillMembers slots draft members = some last ↔
      ∀ slot ∈ slots, slot.Takes draft members last := by
  constructor
  · exact takes_of_fillMembers hslots.apart
  · intro h
    obtain ⟨reached, hreached⟩ : ∃ reached, fillMembers slots draft members = some reached := by
      refine exists_fillMembers hslots.apart fun slot hslot => ?_
      rcases h slot hslot with ⟨hnone, -⟩ | ⟨hempty, document, honce, value, hvalue, -⟩
      · exact .inl hnone
      · exact .inr ⟨hempty, document, honce, by rw [hvalue]; rfl⟩
    have htakes := takes_of_fillMembers hslots.apart hreached
    -- the draft that is reached took the same as the given one, slot by slot
    rw [hreached, hslots.ext reached last]
    intro slot hslot
    rcases htakes slot hslot with ⟨hnone, hget⟩ | ⟨hempty, document, honce, value, hvalue, hget⟩
    · rcases h slot hslot with ⟨-, hgoal⟩ | ⟨-, document, honce, -⟩
      · rw [hget, hgoal]
      · rw [hnone] at honce
        contradiction
    · rcases h slot hslot with ⟨hnone, -⟩ | ⟨-, document', honce', value', hvalue', hgoal⟩
      · rw [hnone] at honce
        contradiction
      · rw [honce] at honce'
        rw [hget, hgoal, ← hvalue, ← hvalue', (List.cons.inj honce').1]

/-! ## 4. Lists -/

theorem get_of_fillItems {slots : List (Slot Draft)} {slot : Slot Draft}
    (hslot : ∀ other ∈ slots, slot.Apart other) {draft last : Draft} {items : List Json}
    (h : fillItems draft slots items = some last) : slot.get last = slot.get draft := by
  induction slots generalizing draft items with
  | nil =>
    cases items with
    | nil => rw [← Option.some.inj h]
    | cons => contradiction
  | cons first slots ih =>
    cases items with
    | nil => contradiction
    | cons item items =>
      obtain ⟨next, hnext, hmore⟩ := Option.bind_eq_some_iff.mp h
      obtain ⟨value, -, rfl⟩ := Option.map_eq_some_iff.mp hnext
      rw [ih (fun other hother => hslot other (List.mem_cons_of_mem _ hother)) hmore,
        (hslot first List.mem_cons_self).get_left]

theorem holds_of_fillItems {slots : List (Slot Draft)} (hslots : slots.Pairwise Apart)
    {draft last : Draft} {items : List Json} (h : fillItems draft slots items = some last) :
    List.Forall₂ (Holds last) slots items := by
  induction slots generalizing draft items with
  | nil =>
    cases items with
    | nil => exact .nil
    | cons => contradiction
  | cons slot slots ih =>
    cases items with
    | nil => contradiction
    | cons item items =>
      obtain ⟨hslot, hmore⟩ := List.pairwise_cons.mp hslots
      obtain ⟨next, hnext, hfill⟩ := Option.bind_eq_some_iff.mp h
      obtain ⟨value, hvalue, rfl⟩ := Option.map_eq_some_iff.mp hnext
      refine .cons ⟨value, hvalue, ?_⟩ (ih hmore hfill)
      rw [get_of_fillItems hslot hfill, slot.get_set]

theorem exists_fillItems {slots : List (Slot Draft)} {items : List Json} {last : Draft}
    (h : List.Forall₂ (Holds last) slots items) (draft : Draft) :
    ∃ reached, fillItems draft slots items = some reached := by
  induction h generalizing draft with
  | nil => exact ⟨draft, rfl⟩
  | @cons slot item slots items hholds _ ih =>
    obtain ⟨value, hvalue, -⟩ := hholds
    rw [fillItems, Slot.fill?, hvalue]
    exact ih (slot.set draft value)

theorem get_eq_of_holds {slots : List (Slot Draft)} {items : List Json} {draft last : Draft}
    (h : List.Forall₂ (Holds draft) slots items) (h' : List.Forall₂ (Holds last) slots items) :
    ∀ slot ∈ slots, slot.get draft = slot.get last := by
  induction h with
  | nil => exact fun _ h => absurd h List.not_mem_nil
  | cons hholds _ ih =>
    cases h' with
    | cons hholds' hmore =>
      obtain ⟨value, hvalue, hget⟩ := hholds
      obtain ⟨value', hvalue', hget'⟩ := hholds'
      refine List.forall_mem_cons.mpr ⟨?_, ih hmore⟩
      rw [hget, hget', ← hvalue, ← hvalue']

/-- The items of a list fill a draft if each of them is what its slot holds. -/
theorem fillItems_eq_some_iff {slots : List (Slot Draft)} (hslots : Independent slots)
    (items : List Json) (draft last : Draft) :
    fillItems draft slots items = some last ↔ List.Forall₂ (Holds last) slots items := by
  constructor
  · exact holds_of_fillItems hslots.apart
  · intro h
    obtain ⟨reached, hreached⟩ := exists_fillItems h draft
    have hholds := holds_of_fillItems hslots.apart hreached
    rw [hreached, hslots.ext reached last (get_eq_of_holds hholds h)]

/-! ## 5. Records -/

theorem exists_forall₂_iff {β γ : Type*} {R : β → γ → Prop} {l : List β} :
    (∃ l', List.Forall₂ R l l') ↔ ∀ b ∈ l, ∃ c, R b c := by
  induction l with
  | nil => exact ⟨fun _ _ h => absurd h List.not_mem_nil, fun _ => ⟨[], .nil⟩⟩
  | cons b l ih =>
    rw [List.forall_mem_cons, ← ih]
    constructor
    · rintro ⟨l', h⟩
      cases h with
      | cons hhead htail => exact ⟨⟨_, hhead⟩, ⟨_, htail⟩⟩
    · rintro ⟨⟨c, hhead⟩, ⟨l', htail⟩⟩
      exact ⟨c :: l', .cons hhead htail⟩

theorem Slot.takes_iff_of_isSome {slot : Slot Draft} {draft last : Draft}
    (hdraft : slot.get draft = none) (hlast : (slot.get last).isSome)
    (members : List (List Char × Json)) :
    slot.Takes draft members last ↔
      ∃ document, valuesOf slot.key members = [document] ∧ slot.Holds last document := by
  constructor
  · rintro (⟨-, hget⟩ | ⟨-, h⟩)
    · rw [hget, hdraft] at hlast
      contradiction
    · exact h
  · exact fun h => .inr ⟨hdraft, h⟩

theorem isRecord_array_iff {keys : List String} {items values : List Json} :
    IsRecord keys (.array items) values ↔ items = values ∧ values.length = keys.length := by
  constructor
  · intro h
    cases h with
    | array hlength => exact ⟨rfl, hlength⟩
  · rintro ⟨rfl, hlength⟩
    exact .array hlength

theorem isRecord_object_iff {keys : List String} {members : List (List Char × Json)}
    {values : List Json} : IsRecord keys (.object members) values ↔
      List.Forall₂ (fun key value => valuesOf key members = [value]) keys values := by
  constructor
  · intro h
    cases h with
    | object honce => exact honce
  · exact .object

/-- A document stands for what a record amounts to if it is a record of values that the slots
hold. -/
theorem record?_eq_some_iff {schema : Schema Draft α} {slots : List (Slot Draft)}
    (hslots : Independent slots) (hempty : ∀ slot ∈ slots, slot.get schema.empty = none)
    (hfinish : ∀ last a, schema.finish last = .ok a → ∀ slot ∈ slots, (slot.get last).isSome)
    (document : Json) (a : α) :
    schema.record? slots document = some a ↔
      ∃ last, schema.finish last = .ok a ∧
        ∃ values, IsRecord (slots.map Slot.key) document values ∧
          List.Forall₂ (Holds last) slots values := by
  cases document with
  | array items =>
    rw [Schema.record?, Option.bind_eq_some_iff]
    apply exists_congr
    intro last
    rw [fillItems_eq_some_iff hslots, toOption_eq_some_iff, and_comm]
    apply and_congr_right
    intro _
    constructor
    · intro h
      exact ⟨items, isRecord_array_iff.mpr ⟨rfl, by rw [← h.length_eq, List.length_map]⟩, h⟩
    · rintro ⟨values, hrecord, hholds⟩
      rwa [(isRecord_array_iff.mp hrecord).1]
  | object members =>
    rw [Schema.record?, Option.bind_eq_some_iff]
    apply exists_congr
    intro last
    rw [fillMembers_eq_some_iff hslots, toOption_eq_some_iff, and_comm]
    apply and_congr_right
    intro hlast
    -- a full draft has taken something for each of its slots
    have htakes : (∀ slot ∈ slots, slot.Takes schema.empty members last) ↔
        ∀ slot ∈ slots, ∃ value, valuesOf slot.key members = [value] ∧ slot.Holds last value :=
      forall₂_congr fun slot hslot =>
        Slot.takes_iff_of_isSome (hempty slot hslot) (hfinish last a hlast slot hslot) members
    rw [htakes, ← exists_forall₂_iff]
    apply exists_congr
    intro values
    rw [isRecord_object_iff, List.forall₂_map_left_iff]
    constructor
    · intro h
      exact ⟨h.imp fun _ _ h => h.1, h.imp fun _ _ h => h.2⟩
    · rintro ⟨honce, hholds⟩
      exact honce.mp (fun _ _ honce hholds => ⟨honce, hholds⟩) hholds
  | _ =>
    constructor
    · intro h
      contradiction
    · rintro ⟨last, -, values, hrecord, -⟩
      cases hrecord

end ModuleSurface.Json
