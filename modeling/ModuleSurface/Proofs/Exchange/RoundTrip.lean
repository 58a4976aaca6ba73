import ModuleSurface.Exchange.Decode
import ModuleSurface.Exchange.Encode
import ModuleSurface.Proofs.Json.WriteRead

/-!
# RoundTrip — modules are decoded from what they are encoded to

Encoding writes the text of a kind and decoding reads the kind that the text stands for, so that
decoding an encoded module gives the module with its kinds read again (`Module.reread`).  That is
the module itself, unless it has a kind that no text stands for.
-/

namespace ModuleSurface

open Json (Layout Piece ReadsBack Reader Fills AllSpace readText readsBack_readText
  readsBack_readList readsBack_object readDocument_of_readsBack ofChars_append allSpace_nil)
open Json.Piece (ofChars)

/-! ## 1. Kinds that a text stands for -/

namespace Kind

/-- No text stands for a known kind under another constructor. -/
theorem ofText_ne_other (text : String) :
    ofText text ≠ .other "function" ∧ ofText text ≠ .other "variable" := by
  unfold ofText
  split
  · simp
  · rename_i hfunction
    split
    · simp
    · rename_i hvariable
      exact ⟨fun h => hfunction (Kind.other.inj h), fun h => hvariable (Kind.other.inj h)⟩

theorem ofText_text_eq_iff (kind : Kind) :
    ofText kind.text = kind ↔ kind ≠ .other "function" ∧ kind ≠ .other "variable" := by
  constructor
  · intro h
    rw [← h]
    exact ofText_ne_other kind.text
  · rintro ⟨hfunction, hvariable⟩
    match kind with
    | .function => rfl
    | .variable => rfl
    | .other text =>
      have htext : text ≠ "function" ∧ text ≠ "variable" := by
        refine ⟨?_, ?_⟩
        · rintro rfl
          exact hfunction rfl
        · rintro rfl
          exact hvariable rfl
      simp [ofText, Kind.text, htext]

end Kind

/-- The symbol with the kind that the text of its kind stands for. -/
def Symbol.reread (symbol : Symbol) : Symbol :=
  { symbol with kind := .ofText symbol.kind.text }

theorem Symbol.reread_eq_self_iff (symbol : Symbol) :
    symbol.reread = symbol ↔
      symbol.kind ≠ .other "function" ∧ symbol.kind ≠ .other "variable" := by
  rw [← Kind.ofText_text_eq_iff]
  constructor
  · intro h
    exact congrArg Symbol.kind h
  · intro h
    rw [Symbol.reread, h]

def Module.reread (module : Module) : Module :=
  { module with funcs := module.funcs.map Symbol.reread, vars := module.vars.map Symbol.reread }

theorem Module.reread_eq_self_iff (module : Module) :
    module.reread = module ↔
      ∀ symbol ∈ module.funcs ++ module.vars,
        symbol.kind ≠ .other "function" ∧ symbol.kind ≠ .other "variable" := by
  have hmap : ∀ symbols : List Symbol, symbols.map Symbol.reread = symbols ↔
      ∀ symbol ∈ symbols, symbol.kind ≠ .other "function" ∧ symbol.kind ≠ .other "variable" := by
    intro symbols
    rw [← forall₂_congr fun symbol _ => symbol.reread_eq_self_iff, ← List.map_inj_left,
      List.map_id']
  rw [List.forall_mem_append, ← hmap, ← hmap, Module.reread]
  constructor
  · intro h
    exact ⟨congrArg Module.funcs h, congrArg Module.vars h⟩
  · rintro ⟨hfuncs, hvars⟩
    rw [hfuncs, hvars]

namespace Exchange

/-! ## 2. Symbols -/

theorem readsBack_map {α β : Type} {reader : Reader α} {written : List Char} {a : α}
    (h : ReadsBack reader written a) (f : α → β) :
    ReadsBack (fun text => (reader text).map fun (value, rest) => (f value, rest)) written
      (f a) := by
  refine ⟨h.opening, fun lead rest hlead => ?_⟩
  simp only [h.read lead rest hlead, Except.map]

theorem readsBack_textField {Draft : Type} (key : String) (get : Draft → Option String)
    (set : Draft → String → Draft) (draft : Draft) (content : String) :
    ReadsBack ((textField key get set).read draft) (Json.literal content.toList)
      (set draft content) := by
  have h := readsBack_map (readsBack_readText content.toList) (set draft)
  rwa [String.ofList_toList] at h

theorem readsBack_symbolsField (key : String) (get : ModuleDraft → Option (List Symbol))
    (set : ModuleDraft → List Symbol → ModuleDraft) (draft : ModuleDraft) {written : List Char}
    {symbols : List Symbol} (h : ReadsBack (Json.readList readSymbol) written symbols) :
    ReadsBack ((symbolsField key get set).read draft) written (set draft symbols) :=
  readsBack_map h (set draft)

variable (layout : Layout) (depth : Nat)

theorem readsBack_symbol (symbol : Symbol) :
    ReadsBack readSymbol (symbol.toJson.write layout depth) symbol.reread := by
  have hfills : Fills symbolSchema layout (depth + 1) symbolSchema.empty
      [("name".toList, .string symbol.name.toList),
        ("type".toList, .string symbol.kind.text.toList),
        ("doc".toList, .string symbol.doc.toList), ("sig".toList, .string symbol.sig.toList)]
      ⟨some symbol.name, some symbol.kind.text, some symbol.doc, some symbol.sig⟩ :=
    .cons rfl rfl (readsBack_textField ..) <| .cons rfl rfl (readsBack_textField ..) <|
      .cons rfl rfl (readsBack_textField ..) <| .cons rfl rfl (readsBack_textField ..) .nil
  have hrecord := readsBack_object (by simp) hfills
    (a := ⟨symbol.name, symbol.kind.text, symbol.doc, symbol.sig⟩) rfl
  refine ⟨hrecord.opening, fun lead rest hlead => ?_⟩
  -- the name is not empty, since it is that of a symbol
  have hparts : Symbol.ofParts? symbol.name (.ofText symbol.kind.text) symbol.doc symbol.sig =
      some symbol.reread := dif_neg symbol.name_ne
  simp only [readSymbol, Symbol.toJson, hrecord.read lead rest hlead, bind, Except.bind, hparts]
  rfl

/-! ## 3. Modules -/

theorem readsBack_symbols (symbols : List Symbol) :
    ReadsBack (Json.readList readSymbol)
      ((Json.array (symbols.map Symbol.toJson)).write layout depth)
      (symbols.map Symbol.reread) := by
  refine readsBack_readList ?_
  rw [List.forall₂_map_left_iff, List.forall₂_map_right_iff, List.forall₂_same]
  exact fun symbol _ => readsBack_symbol layout (depth + 1) symbol

theorem readsBack_module (module : Module) :
    ReadsBack moduleSchema.read (module.toJson.write layout depth) module.reread := by
  have hfuncs := readsBack_symbols layout (depth + 1) module.funcs
  have hvars := readsBack_symbols layout (depth + 1) module.vars
  -- the functions and variables are given one level deeper than the module
  have hfills : Fills moduleSchema layout (depth + 1) moduleSchema.empty
      [("name".toList, .string module.name.toList),
        ("functions".toList, .array (module.funcs.map Symbol.toJson)),
        ("variables".toList, .array (module.vars.map Symbol.toJson))]
      ⟨some module.name, some (module.funcs.map Symbol.reread),
        some (module.vars.map Symbol.reread)⟩ :=
    .cons rfl rfl (readsBack_textField ..) <|
      .cons rfl rfl (readsBack_symbolsField _ _ _ _ hfuncs) <|
        .cons rfl rfl (readsBack_symbolsField _ _ _ _ hvars) .nil
  exact readsBack_object (by simp) hfills rfl

/-! ## 4. Whole documents -/

theorem moduleOfText_text (module : Module) (tail : String)
    (htail : AllSpace (ofChars tail.toList)) :
    moduleOfText (text layout module ++ tail) = .ok module.reread := by
  have hchars : ofChars (text layout module ++ tail).toList =
      ofChars (module.toJson.write layout 0) ++ ofChars tail.toList := by
    rw [String.toList_append, ofChars_append, text, String.toList_ofList, Json.render]
  have hread := readDocument_of_readsBack (readsBack_module layout 0 module) htail
  rw [moduleOfText, decodePieces, hchars, hread]
  rfl

theorem decode_value (text : String) : (decode text).value = moduleOfText text := by
  unfold decode tellDecoded
  cases moduleOfText text <;> rfl

/-- Decoding what a module is encoded to gives the module, unless it has a kind that no text
stands for. -/
theorem decode_encode (module : Module) :
    (∃ decoded, (decode (encode layout module).value).value = .ok decoded ∧
      (decode ((encode layout module).value ++ "\n")).value = .ok decoded ∧
      (decoded = module ↔ ∀ symbol ∈ module.funcs ++ module.vars,
        symbol.kind ≠ .other "function" ∧ symbol.kind ≠ .other "variable")) ∧
      ∀ text, Kind.ofText text ≠ .other "function" ∧ Kind.ofText text ≠ .other "variable" := by
  -- the line break of a file is a tail of blanks, and so is no tail at all
  have hencode : (encode layout module).value = text layout module := rfl
  have hempty := moduleOfText_text layout module "" allSpace_nil
  rw [String.append_empty] at hempty
  refine ⟨⟨module.reread, ?_, ?_, module.reread_eq_self_iff⟩, Kind.ofText_ne_other⟩
  · rw [decode_value, hencode, hempty]
  · have hline : AllSpace (ofChars "\n".toList) := by
      intro piece hpiece
      rw [List.mem_singleton.mp hpiece]
      rfl
    rw [decode_value, hencode, moduleOfText_text layout module "\n" hline]

end Exchange

end ModuleSurface
