import ModuleSurface.Proofs.Exchange.RoundTrip
import ModuleSurface.Proofs.Json.Yields

/-!
# Canonical — decoded modules, and the one text that each of them is kept in

Every kind of a decoded module was read from a text, whatever else stood in the document
(`isTextual_of_moduleOfText`).  So a decoded module is decoded from its canonical text again, and no
other decoded module has that text (`canonicalText_eq_iff`).
-/

namespace ModuleSurface

open Json (Layout Yields AllSpace)
open Json.Piece (ofChars)

/-! ## 1. Kinds that were made from text -/

/-- Whether the kind of a symbol was made from text. -/
def Symbol.IsTextual (symbol : Symbol) : Prop :=
  ∃ text, symbol.kind = .ofText text

theorem Symbol.isTextual_iff (symbol : Symbol) :
    symbol.IsTextual ↔ symbol.kind ≠ .other "function" ∧ symbol.kind ≠ .other "variable" := by
  rw [← Kind.ofText_text_eq_iff]
  constructor
  · rintro ⟨text, htext⟩
    rw [htext, Kind.text_ofText]
  · exact fun h => ⟨symbol.kind.text, h.symm⟩

def Module.IsTextual (module : Module) : Prop :=
  ∀ partition, ∀ symbol ∈ module.partition partition, symbol.IsTextual

/-- Reading kinds again makes no difference if they were made from text. -/
theorem Module.reread_eq_self_iff_isTextual (module : Module) :
    module.reread = module ↔ module.IsTextual := by
  simp only [module.reread_eq_self_iff, ← Symbol.isTextual_iff, List.forall_mem_append]
  constructor
  · rintro ⟨hfuncs, hvars⟩ (_ | _)
    · exact hfuncs
    · exact hvars
  · exact fun h => ⟨h .funcs, h .vars⟩

namespace Exchange

/-! ## 2. Decoded modules -/

theorem yields_readSymbol : Yields readSymbol Symbol.IsTextual := by
  intro text symbol rest hread
  obtain ⟨⟨record, rest'⟩, -, hread⟩ := Json.bind_eq_ok hread
  dsimp only at hread
  split at hread
  · rename_i symbol' hparts
    obtain ⟨rfl, rfl⟩ := Prod.mk.inj (Except.ok.inj hread)
    unfold Symbol.ofParts? at hparts
    split at hparts
    · contradiction
    · rw [← Option.some.inj hparts]
      exact ⟨record.kind, rfl⟩
  · contradiction

def ModuleDraft.IsTextual (draft : ModuleDraft) : Prop :=
  (∀ symbols, draft.funcs = some symbols → ∀ symbol ∈ symbols, symbol.IsTextual) ∧
    ∀ symbols, draft.vars = some symbols → ∀ symbol ∈ symbols, symbol.IsTextual

theorem yields_textField {Draft : Type} {Holds : Draft → Prop} {key : String}
    {get : Draft → Option String} {set : Draft → String → Draft} {draft : Draft}
    (h : ∀ text, Holds (set draft text)) : Yields ((textField key get set).read draft) Holds := by
  intro text last rest hread
  obtain ⟨⟨value, rest'⟩, -, hlast⟩ := Json.map_eq_ok hread
  rw [← (Prod.mk.inj hlast).1]
  exact h value

theorem yields_symbolsField {Holds : ModuleDraft → Prop} {key : String}
    {get : ModuleDraft → Option (List Symbol)} {set : ModuleDraft → List Symbol → ModuleDraft}
    {draft : ModuleDraft}
    (h : ∀ symbols : List Symbol, (∀ symbol ∈ symbols, symbol.IsTextual) →
      Holds (set draft symbols)) :
    Yields ((symbolsField key get set).read draft) Holds :=
  yields_readSymbol.readList.map h

theorem keeps_moduleSchema : moduleSchema.Keeps ModuleDraft.IsTextual := by
  have hgiven : ∀ symbols : List Symbol, (∀ symbol ∈ symbols, symbol.IsTextual) →
      ∀ given, some symbols = some given → ∀ symbol ∈ given, symbol.IsTextual := by
    rintro symbols hsymbols _ ⟨⟩
    exact hsymbols
  simp only [Json.Schema.Keeps, moduleSchema, List.forall_mem_cons, List.not_mem_nil,
    IsEmpty.forall_iff, implies_true, and_true]
  refine ⟨fun draft hdraft => ?_, fun draft hdraft => ?_, fun draft hdraft => ?_⟩
  · exact yields_textField fun _ => hdraft
  · exact yields_symbolsField fun symbols hsymbols => ⟨hgiven symbols hsymbols, hdraft.2⟩
  · exact yields_symbolsField fun symbols hsymbols => ⟨hdraft.1, hgiven symbols hsymbols⟩

/-- All kinds of a decoded module were made from text. -/
theorem isTextual_of_moduleOfText {text : String} {module : Module}
    (h : moduleOfText text = .ok module) : module.IsTextual := by
  have hread : Yields moduleSchema.read fun module => module.IsTextual := by
    refine keeps_moduleSchema.yields_read ⟨by simp [moduleSchema], by simp [moduleSchema]⟩ ?_
    rintro ⟨name, funcs, vars⟩ module hdraft hfinish
    cases name <;> cases funcs <;> cases vars <;> cases hfinish
    rintro (_ | _)
    · exact hdraft.1 _ rfl
    · exact hdraft.2 _ rfl
  unfold moduleOfText decodePieces at h
  cases hdocument : Json.readDocument moduleSchema.read (ofChars text.toList) with
  | error fault =>
    rw [hdocument] at h
    contradiction
  | ok module' =>
    rw [hdocument] at h
    rw [← Except.ok.inj h]
    exact hread.readDocument hdocument

/-! ## 3. Encoded modules and their canonical texts -/

variable (layout : Layout)

theorem moduleOfText_encode (module : Module) :
    moduleOfText (encode layout module).value = .ok module.reread := by
  have h := moduleOfText_text layout module "" Json.allSpace_nil
  rwa [String.append_empty] at h

theorem moduleOfText_canonicalText (module : Module) :
    moduleOfText (canonicalText layout module).value = .ok module.reread := by
  refine moduleOfText_text layout module "\n" fun piece hpiece => ?_
  rw [List.mem_singleton.mp hpiece]
  rfl

/-- A decoded module is decoded from its canonical text again. -/
theorem moduleOfText_canonicalText_of_decoded {text : String} {module : Module}
    (h : moduleOfText text = .ok module) :
    moduleOfText (canonicalText layout module).value = .ok module := by
  rw [moduleOfText_canonicalText,
    (Module.reread_eq_self_iff_isTextual module).mpr (isTextual_of_moduleOfText h)]

theorem canonicalText_eq_iff {text text' : String} {module module' : Module}
    (h : moduleOfText text = .ok module) (h' : moduleOfText text' = .ok module') :
    (canonicalText layout module).value = (canonicalText layout module').value ↔
      module = module' := by
  constructor
  · intro hsame
    have hdecoded := moduleOfText_canonicalText_of_decoded layout h
    rw [hsame, moduleOfText_canonicalText_of_decoded layout h'] at hdecoded
    exact (Except.ok.inj hdecoded).symm
  · rintro rfl
    rfl

end Exchange

end ModuleSurface
