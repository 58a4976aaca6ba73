import ModuleSurface.Json.Record

/-!
# Yields — what holds of all that a reader gives, whatever the text

Unlike a description of the documents of the grammar, this says nothing of which texts are read.
What holds of all items holds of all items of a list (`Yields.readList`), and what every field of
a record keeps up of its draft holds of the draft of a whole record (`Schema.Keeps.yields_read`).
-/

namespace ModuleSurface.Json

/-! ## 1. Results -/

/-- What is read is what comes of the first part and what comes of the second one then. -/
theorem bind_eq_ok {ε α β : Type} {x : Except ε α} {f : α → Except ε β} {b : β}
    (h : (x >>= f) = .ok b) : ∃ a, x = .ok a ∧ f a = .ok b := by
  cases x with
  | error fault => contradiction
  | ok a => exact ⟨a, rfl, h⟩

theorem map_eq_ok {ε α β : Type} {x : Except ε α} {f : α → β} {b : β} (h : x.map f = .ok b) :
    ∃ a, x = .ok a ∧ f a = b := by
  cases x with
  | error fault => contradiction
  | ok a => exact ⟨a, rfl, Except.ok.inj h⟩

/-- Whether all that a reader gives has a property. -/
def Yields {α : Type} (reader : Reader α) (Has : α → Prop) : Prop :=
  ∀ ⦃text value rest⦄, reader text = .ok (value, rest) → Has value

section Readers

variable {α β : Type} {reader : Reader α} {Has : α → Prop} {Gives : β → Prop}

theorem Yields.map (h : Yields reader Has) {f : α → β} (hf : ∀ a, Has a → Gives (f a)) :
    Yields (fun text => (reader text).map fun (value, rest) => (f value, rest)) Gives := by
  intro text value rest hread
  obtain ⟨⟨a, rest'⟩, hfirst, hvalue⟩ := map_eq_ok hread
  obtain ⟨rfl, rfl⟩ := Prod.mk.inj hvalue
  exact hf a (h hfirst)

theorem Yields.within (h : Yields reader Has) (opened : Opened) :
    Yields (within opened reader) Has := by
  intro text value rest hread
  unfold Json.within at hread
  split at hread
  · contradiction
  · rename_i value' rest' hcontent
    obtain ⟨after, -, hvalue⟩ := map_eq_ok hread
    obtain ⟨rfl, rfl⟩ := Prod.mk.inj hvalue
    exact h hcontent

end Readers

/-! ## 2. Lists -/

section Lists

variable {α : Type} {item : Reader α} {Has : α → Prop}

theorem Yields.readItems (h : Yields item Has) (bound : Nat) (first : Bool) :
    Yields (Json.readItems item bound first) fun values => ∀ value ∈ values, Has value := by
  intro text values rest hread
  induction bound generalizing first text values rest with
  | zero => contradiction
  | succ bound ih =>
    obtain ⟨⟨more, text'⟩, hstep, hread⟩ := bind_eq_ok hread
    cases more with
    | false =>
      obtain ⟨rfl, rfl⟩ := Prod.mk.inj (Except.ok.inj hread)
      exact fun _ hmem => absurd hmem List.not_mem_nil
    | true =>
      obtain ⟨⟨value, text''⟩, hitem, hread⟩ := bind_eq_ok hread
      obtain ⟨⟨values', rest'⟩, hitems, hread⟩ := bind_eq_ok hread
      obtain ⟨rfl, rfl⟩ := Prod.mk.inj (Except.ok.inj hread)
      exact List.forall_mem_cons.mpr ⟨h hitem, ih false hitems⟩

theorem Yields.readList (h : Yields item Has) :
    Yields (Json.readList item) fun values => ∀ value ∈ values, Has value := by
  intro text values rest hread
  unfold Json.readList at hread
  split at hread
  · contradiction
  · exact (h.readItems _ true).within .list hread
  · contradiction

end Lists

/-! ## 3. Records -/

section Records

variable {Draft α : Type} {schema : Schema Draft α} {Holds : Draft → Prop} {Has : α → Prop}

/-- Whether every field of a record keeps up what holds of a draft. -/
def Schema.Keeps (schema : Schema Draft α) (Holds : Draft → Prop) : Prop :=
  ∀ field ∈ schema.fields, ∀ draft, Holds draft → Yields (field.read draft) Holds

theorem Schema.Keeps.readFields (h : schema.Keeps Holds) {fields : List (Field Draft)}
    (hfields : ∀ field ∈ fields, field ∈ schema.fields) (count : Nat) {draft : Draft}
    (hdraft : Holds draft) : Yields (readFields schema count draft fields) Holds := by
  intro text last rest hread
  induction fields generalizing count draft text with
  | nil =>
    obtain ⟨rfl, rfl⟩ := Prod.mk.inj (Except.ok.inj hread)
    exact hdraft
  | cons field fields ih =>
    obtain ⟨hfield, hmore⟩ := List.forall_mem_cons.mp hfields
    obtain ⟨⟨goesOn, text'⟩, -, hread⟩ := bind_eq_ok hread
    cases goesOn with
    | false => contradiction
    | true =>
      obtain ⟨⟨draft', text''⟩, hfirst, hread⟩ := bind_eq_ok hread
      exact ih hmore (count + 1) (h field hfield draft hdraft hfirst) hread

theorem Schema.Keeps.readMember (h : schema.Keeps Holds) {draft : Draft} (hdraft : Holds draft) :
    Yields (readMember schema draft) Holds := by
  intro text last rest hread
  unfold Json.readMember at hread
  split at hread
  · obtain ⟨⟨key, text'⟩, -, hread⟩ := bind_eq_ok hread
    dsimp only at hread
    split at hread
    · -- a member that is no field leaves the draft as it is
      obtain ⟨_, -, hread⟩ := bind_eq_ok hread
      obtain ⟨_, -, hread⟩ := bind_eq_ok hread
      obtain ⟨rfl, rfl⟩ := Prod.mk.inj (Except.ok.inj hread)
      exact hdraft
    · rename_i field hfind
      split at hread
      · contradiction
      · obtain ⟨_, -, hread⟩ := bind_eq_ok hread
        exact h field (List.mem_of_find?_eq_some hfind) draft hdraft hread
  · contradiction

theorem Schema.Keeps.readMembers (h : schema.Keeps Holds) (bound : Nat) (first : Bool)
    {draft : Draft} (hdraft : Holds draft) :
    Yields (readMembers schema bound first draft) Holds := by
  intro text last rest hread
  induction bound generalizing first draft text with
  | zero => contradiction
  | succ bound ih =>
    obtain ⟨text', -, hread⟩ := bind_eq_ok hread
    dsimp only at hread
    split at hread
    · obtain ⟨rfl, rfl⟩ := Prod.mk.inj (Except.ok.inj hread)
      exact hdraft
    · obtain ⟨⟨draft', text''⟩, hmember, hread⟩ := bind_eq_ok hread
      exact ih false (h.readMember hdraft hmember) hread

/-- What all fields keep up holds of the draft of a record, in both of its forms. -/
theorem Schema.Keeps.yields_read (h : schema.Keeps Holds) (hempty : Holds schema.empty)
    (hfinish : ∀ draft value, Holds draft → schema.finish draft = .ok value → Has value) :
    Yields schema.read Has := by
  have hdone : ∀ draft, Holds draft → Yields (finishDraft schema draft) Has := by
    intro draft hdraft text value rest hread
    unfold finishDraft at hread
    split at hread
    · rename_i value' hvalue
      obtain ⟨rfl, rfl⟩ := Prod.mk.inj (Except.ok.inj hread)
      exact hfinish draft value' hdraft hvalue
    · contradiction
  intro text value rest hread
  unfold Schema.read at hread
  split at hread
  · contradiction
  · -- a list of the fields
    refine Yields.within ?_ .list hread
    intro text value rest hread
    obtain ⟨⟨draft, text'⟩, hfields, hread⟩ := bind_eq_ok hread
    exact hdone draft (h.readFields (fun _ hfield => hfield) 0 hempty hfields) hread
  · -- an object
    refine Yields.within ?_ .record hread
    intro text value rest hread
    obtain ⟨⟨draft, text'⟩, hmembers, hread⟩ := bind_eq_ok hread
    exact hdone draft (h.readMembers _ true hempty hmembers) hread
  · contradiction

end Records

/-! ## 4. Whole documents -/

theorem Yields.readDocument {α : Type} {reader : Reader α} {Has : α → Prop}
    (h : Yields reader Has) {text : List Piece} {value : α}
    (hread : readDocument reader text = .ok value) : Has value := by
  obtain ⟨⟨value', rest⟩, hvalue, hread⟩ := bind_eq_ok hread
  dsimp only at hread
  split at hread
  · cases hread
    exact h hvalue
  · contradiction

end ModuleSurface.Json
