import ModuleSurface.Exchange.Decode
import ModuleSurface.Proofs.Exchange.RoundTrip
import ModuleSurface.Proofs.Json.Once

/-!
# Accepted — which documents are modules, and which module each of them is

A document is a module if it is a record of a name and two lists of symbols, and a symbol is a
record of four strings, the first of which is not empty (`IsModule`).  Decoding gives exactly that
module, whatever the order of the members, whatever other members there are, and whatever blanks
stand between the tokens (`decode_eq_ok_iff`).
-/

namespace ModuleSurface.Exchange

open Json (Slot Independent IsRecord IsDocument Reads Piece valuesOf text? list? readText
  reads_readText reads_record record?_eq_some_iff toOption_bind toOption_eq_some_iff)
open Json.Piece (ofChars)

/-! ## 1. What a document has to be -/

def symbolKeys : List String :=
  ["name", "type", "doc", "sig"]

def moduleKeys : List String :=
  ["name", "functions", "variables"]

inductive IsSymbol : Json → Symbol → Prop
  | record {document : Json} {name kind doc sig : String} (hname : name ≠ "")
      (hrecord : IsRecord symbolKeys document
        [.string name.toList, .string kind.toList, .string doc.toList, .string sig.toList]) :
      IsSymbol document ⟨name, .ofText kind, doc, sig, hname⟩

/-- The module that a document is, with the symbols of each partition in the order of its list. -/
inductive IsModule : Json → Module → Prop
  | record {document : Json} {name : String} {funcItems varItems : List Json}
      {funcs vars : List Symbol} (hfuncs : List.Forall₂ IsSymbol funcItems funcs)
      (hvars : List.Forall₂ IsSymbol varItems vars)
      (hrecord : IsRecord moduleKeys document
        [.string name.toList, .array funcItems, .array varItems]) :
      IsModule document ⟨name, funcs, vars⟩

/-! ## 2. Symbols -/

def textSlot {Draft : Type} (key : String) (get : Draft → Option String)
    (set : Draft → String → Draft) (h : ∀ draft value, get (set draft value) = some value) :
    Slot Draft where
  Value := String
  key
  get
  set
  reader := readText
  meaning := text?
  reads := reads_readText
  get_set := h

def symbolSlots : List (Slot SymbolDraft) :=
  [ textSlot "name" (·.name) ({ · with name := some · }) fun _ _ => rfl,
    textSlot "type" (·.kind) ({ · with kind := some · }) fun _ _ => rfl,
    textSlot "doc" (·.doc) ({ · with doc := some · }) fun _ _ => rfl,
    textSlot "sig" (·.sig) ({ · with sig := some · }) fun _ _ => rfl]

theorem independent_symbolSlots : Independent symbolSlots := by
  constructor
  · simp only [symbolSlots, List.pairwise_cons, List.forall_mem_cons, List.not_mem_nil,
      List.Pairwise.nil, IsEmpty.forall_iff, implies_true, and_true]
    refine ⟨⟨?_, ?_, ?_⟩, ⟨?_, ?_⟩, ?_⟩ <;> exact ⟨by decide, fun _ _ => rfl, fun _ _ => rfl⟩
  · intro draft last h
    simp only [symbolSlots, List.forall_mem_cons] at h
    obtain ⟨hname, hkind, hdoc, hsig, -⟩ := h
    cases draft
    cases last
    cases hname
    cases hkind
    cases hdoc
    cases hsig
    rfl

theorem text?_eq_some_iff {document : Json} {text : String} :
    text? document = some text ↔ document = .string text.toList := by
  constructor
  · intro h
    cases document with
    | string content => rw [← Option.some.inj h, String.toList_ofList]
    | _ => contradiction
  · rintro rfl
    exact congrArg some String.ofList_toList

theorem finish_symbolSchema_eq_ok_iff {draft : SymbolDraft} {record : SymbolRecord} :
    symbolSchema.finish draft = .ok record ↔
      draft = ⟨some record.name, some record.kind, some record.doc, some record.sig⟩ := by
  obtain ⟨name, kind, doc, sig⟩ := draft
  constructor
  · intro h
    cases name <;> cases kind <;> cases doc <;> cases sig <;> cases h
    rfl
  · intro h
    cases h
    rfl

def symbol? (document : Json) : Option Symbol :=
  (symbolSchema.record? symbolSlots document).bind fun record =>
    Symbol.ofParts? record.name (.ofText record.kind) record.doc record.sig

theorem reads_readSymbol : Reads readSymbol symbol? := by
  intro text document h lead rest hlead hrest
  have hfields : symbolSchema.fields = symbolSlots.map Slot.field := rfl
  have hread := reads_record hfields (List.cons_ne_nil _ _) h hlead hrest
  unfold readSymbol
  rw [toOption_bind, hread, symbol?]
  cases symbolSchema.record? symbolSlots document with
  | none => rfl
  | some record =>
    dsimp only [Option.map_some, Option.bind_some]
    cases Symbol.ofParts? record.name (.ofText record.kind) record.doc record.sig <;> rfl

theorem holds_textSlot_iff {Draft : Type} {key : String} {get : Draft → Option String}
    {set : Draft → String → Draft} {h : ∀ draft value, get (set draft value) = some value}
    {draft : Draft} {value : String} (hget : get draft = some value) (document : Json) :
    (textSlot key get set h).Holds draft document ↔ document = .string value.toList := by
  constructor
  · rintro ⟨value', hmeaning, hget'⟩
    have hvalue : value = value' := Option.some.inj (hget.symm.trans hget')
    rw [hvalue]
    exact text?_eq_some_iff.mp hmeaning
  · exact fun hdocument => ⟨value, text?_eq_some_iff.mpr hdocument, hget⟩

theorem record?_symbolSchema_eq_some_iff {document : Json} {record : SymbolRecord} :
    symbolSchema.record? symbolSlots document = some record ↔
      IsRecord symbolKeys document [.string record.name.toList, .string record.kind.toList,
        .string record.doc.toList, .string record.sig.toList] := by
  have hempty : ∀ slot ∈ symbolSlots, slot.get symbolSchema.empty = none := by
    simp only [symbolSlots, List.forall_mem_cons, List.not_mem_nil, IsEmpty.forall_iff,
      implies_true, and_true]
    exact ⟨rfl, rfl, rfl, rfl⟩
  have hfull : ∀ last record, symbolSchema.finish last = .ok record →
      ∀ slot ∈ symbolSlots, (slot.get last).isSome := by
    intro last record hfinish
    rw [finish_symbolSchema_eq_ok_iff.mp hfinish]
    simp only [symbolSlots, List.forall_mem_cons, List.not_mem_nil, IsEmpty.forall_iff,
      implies_true, and_true]
    exact ⟨rfl, rfl, rfl, rfl⟩
  rw [record?_eq_some_iff independent_symbolSlots hempty hfull]
  -- what is left is that each slot holds the string of its field
  constructor
  · rintro ⟨last, hfinish, values, hrecord, hholds⟩
    rw [finish_symbolSchema_eq_ok_iff.mp hfinish] at hholds
    simp only [symbolSlots, List.forall₂_cons_left_iff, List.forall₂_nil_left_iff] at hholds
    obtain ⟨name, _, hname, ⟨kind, _, hkind, ⟨doc, _, hdoc, ⟨sig, _, hsig, rfl, rfl⟩, rfl⟩, rfl⟩,
      rfl⟩ := hholds
    obtain rfl : name = .string record.name.toList := (holds_textSlot_iff (by rfl) _).mp hname
    obtain rfl : kind = .string record.kind.toList := (holds_textSlot_iff (by rfl) _).mp hkind
    obtain rfl : doc = .string record.doc.toList := (holds_textSlot_iff (by rfl) _).mp hdoc
    obtain rfl : sig = .string record.sig.toList := (holds_textSlot_iff (by rfl) _).mp hsig
    exact hrecord
  · intro hrecord
    refine ⟨_, finish_symbolSchema_eq_ok_iff.mpr rfl, _, hrecord, ?_⟩
    exact .cons ((holds_textSlot_iff (by rfl) _).mpr rfl) <|
      .cons ((holds_textSlot_iff (by rfl) _).mpr rfl) <|
        .cons ((holds_textSlot_iff (by rfl) _).mpr rfl) <|
          .cons ((holds_textSlot_iff (by rfl) _).mpr rfl) .nil

theorem symbol?_eq_some_iff {document : Json} {symbol : Symbol} :
    symbol? document = some symbol ↔ IsSymbol document symbol := by
  rw [symbol?, Option.bind_eq_some_iff]
  constructor
  · rintro ⟨record, hrecord, hparts⟩
    unfold Symbol.ofParts? at hparts
    split at hparts
    · contradiction
    · rename_i hname
      rw [← Option.some.inj hparts]
      exact .record hname (record?_symbolSchema_eq_some_iff.mp hrecord)
  · rintro ⟨hname, hrecord⟩
    exact ⟨⟨_, _, _, _⟩, record?_symbolSchema_eq_some_iff.mpr hrecord, dif_neg hname⟩

/-! ## 3. Modules -/

theorem mapM_eq_some_iff {α β : Type} {f : α → Option β} {items : List α} {values : List β} :
    items.mapM f = some values ↔
      List.Forall₂ (fun item value => f item = some value) items values := by
  induction items generalizing values with
  | nil => simp [eq_comm]
  | cons item items ih =>
    rw [List.mapM_cons, List.forall₂_cons_left_iff]
    simp only [Option.bind_eq_bind, Option.bind_eq_some_iff, Option.pure_def, Option.some.injEq, ih]
    constructor
    · rintro ⟨value, hvalue, more, hmore, rfl⟩
      exact ⟨value, more, hvalue, hmore, rfl⟩
    · rintro ⟨value, more, hvalue, hmore, rfl⟩
      exact ⟨value, hvalue, more, hmore, rfl⟩

theorem list?_eq_some_iff {α : Type} {meaning : Json → Option α} {document : Json}
    {values : List α} :
    list? meaning document = some values ↔
      ∃ items, document = .array items ∧
        List.Forall₂ (fun item value => meaning item = some value) items values := by
  constructor
  · intro h
    cases document with
    | array items => exact ⟨items, rfl, mapM_eq_some_iff.mp h⟩
    | _ => contradiction
  · rintro ⟨items, rfl, h⟩
    exact mapM_eq_some_iff.mpr h

def symbolsSlot (key : String) (get : ModuleDraft → Option (List Symbol))
    (set : ModuleDraft → List Symbol → ModuleDraft)
    (h : ∀ draft value, get (set draft value) = some value) : Slot ModuleDraft where
  Value := List Symbol
  key
  get
  set
  reader := Json.readList readSymbol
  meaning := list? symbol?
  reads := reads_readSymbol.readList
  get_set := h

def moduleSlots : List (Slot ModuleDraft) :=
  [ textSlot "name" (·.name) ({ · with name := some · }) fun _ _ => rfl,
    symbolsSlot "functions" (·.funcs) ({ · with funcs := some · }) fun _ _ => rfl,
    symbolsSlot "variables" (·.vars) ({ · with vars := some · }) fun _ _ => rfl]

theorem independent_moduleSlots : Independent moduleSlots := by
  constructor
  · simp only [moduleSlots, List.pairwise_cons, List.forall_mem_cons, List.not_mem_nil,
      List.Pairwise.nil, IsEmpty.forall_iff, implies_true, and_true]
    refine ⟨⟨?_, ?_⟩, ?_⟩ <;> exact ⟨by decide, fun _ _ => rfl, fun _ _ => rfl⟩
  · intro draft last h
    simp only [moduleSlots, List.forall_mem_cons] at h
    obtain ⟨hname, hfuncs, hvars, -⟩ := h
    cases draft
    cases last
    cases hname
    cases hfuncs
    cases hvars
    rfl

theorem finish_moduleSchema_eq_ok_iff {draft : ModuleDraft} {module : Module} :
    moduleSchema.finish draft = .ok module ↔
      draft = ⟨some module.name, some module.funcs, some module.vars⟩ := by
  obtain ⟨name, funcs, vars⟩ := draft
  constructor
  · intro h
    cases name <;> cases funcs <;> cases vars <;> cases h
    rfl
  · intro h
    cases h
    rfl

theorem holds_symbolsSlot_iff {key : String} {get : ModuleDraft → Option (List Symbol)}
    {set : ModuleDraft → List Symbol → ModuleDraft}
    {h : ∀ draft value, get (set draft value) = some value} {draft : ModuleDraft}
    {symbols : List Symbol} (hget : get draft = some symbols) (document : Json) :
    (symbolsSlot key get set h).Holds draft document ↔
      ∃ items, document = .array items ∧ List.Forall₂ IsSymbol items symbols := by
  have hmeaning : list? symbol? document = some symbols ↔
      ∃ items, document = .array items ∧ List.Forall₂ IsSymbol items symbols := by
    simp only [list?_eq_some_iff, symbol?_eq_some_iff]
  rw [← hmeaning]
  constructor
  · rintro ⟨value, hvalue, hget'⟩
    have hsymbols : symbols = value := Option.some.inj (hget.symm.trans hget')
    rw [hsymbols]
    exact hvalue
  · exact fun hdocument => ⟨symbols, hdocument, hget⟩

theorem record?_moduleSchema_eq_some_iff {document : Json} {module : Module} :
    moduleSchema.record? moduleSlots document = some module ↔ IsModule document module := by
  have hempty : ∀ slot ∈ moduleSlots, slot.get moduleSchema.empty = none := by
    simp only [moduleSlots, List.forall_mem_cons, List.not_mem_nil, IsEmpty.forall_iff,
      implies_true, and_true]
    exact ⟨rfl, rfl, rfl⟩
  have hfull : ∀ last module, moduleSchema.finish last = .ok module →
      ∀ slot ∈ moduleSlots, (slot.get last).isSome := by
    intro last module hfinish
    rw [finish_moduleSchema_eq_ok_iff.mp hfinish]
    simp only [moduleSlots, List.forall_mem_cons, List.not_mem_nil, IsEmpty.forall_iff,
      implies_true, and_true]
    exact ⟨rfl, rfl, rfl⟩
  rw [record?_eq_some_iff independent_moduleSlots hempty hfull]
  constructor
  · rintro ⟨last, hfinish, values, hrecord, hholds⟩
    rw [finish_moduleSchema_eq_ok_iff.mp hfinish] at hholds
    simp only [moduleSlots, List.forall₂_cons_left_iff, List.forall₂_nil_left_iff] at hholds
    obtain ⟨name, _, hname, ⟨funcs, _, hfuncs, ⟨vars, _, hvars, rfl, rfl⟩, rfl⟩, rfl⟩ := hholds
    obtain ⟨funcItems, rfl, hfuncItems⟩ := (holds_symbolsSlot_iff (by rfl) funcs).mp hfuncs
    obtain ⟨varItems, rfl, hvarItems⟩ := (holds_symbolsSlot_iff (by rfl) vars).mp hvars
    obtain rfl : name = .string module.name.toList := (holds_textSlot_iff (by rfl) _).mp hname
    exact .record hfuncItems hvarItems hrecord
  · rintro ⟨hfuncs, hvars, hrecord⟩
    refine ⟨_, finish_moduleSchema_eq_ok_iff.mpr rfl, _, hrecord, ?_⟩
    exact .cons ((holds_textSlot_iff (by rfl) _).mpr rfl) <|
      .cons ((holds_symbolsSlot_iff (by rfl) _).mpr ⟨_, rfl, hfuncs⟩) <|
        .cons ((holds_symbolsSlot_iff (by rfl) _).mpr ⟨_, rfl, hvars⟩) .nil

theorem reads_module : Reads moduleSchema.read (moduleSchema.record? moduleSlots) := by
  have hfields : moduleSchema.fields = moduleSlots.map Slot.field := rfl
  exact reads_record hfields (List.cons_ne_nil _ _)

theorem moduleOfText_eq_ok_iff {text : String} {document : Json}
    (h : IsDocument text.toList document) (module : Module) :
    moduleOfText text = .ok module ↔ IsModule document module := by
  have hread := reads_module.readDocument h
  rw [← record?_moduleSchema_eq_some_iff, ← hread, toOption_eq_some_iff, moduleOfText, decodePieces]
  cases Json.readDocument moduleSchema.read (ofChars text.toList) <;> simp [Except.mapError]

/-! ## 4. What has no influence -/

/-- Two lists of values, one for each key, that are the same key by key. -/
inductive SameValues (Same : String → Json → Json → Prop) :
    List String → List Json → List Json → Prop
  | nil : SameValues Same [] [] []
  | cons {key : String} {keys : List String} {value value' : Json} {values values' : List Json}
      (hvalue : Same key value value') (hmore : SameValues Same keys values values') :
      SameValues Same (key :: keys) (value :: values) (value' :: values')

/-- Two documents that are the same as records of the given keys: the order of the members and the
members of other keys do not matter. -/
inductive SameRecord (keys : List String) (Same : String → Json → Json → Prop) :
    Json → Json → Prop
  | refl {document : Json} : SameRecord keys Same document document
  | array {items items' : List Json} (h : SameValues Same keys items items') :
      SameRecord keys Same (.array items) (.array items')
  | object {members members' : List (List Char × Json)}
      (h : ∀ key ∈ keys, List.Forall₂ (Same key) (valuesOf key members) (valuesOf key members')) :
      SameRecord keys Same (.object members) (.object members')

def SameSymbol : Json → Json → Prop :=
  SameRecord symbolKeys fun _ => Eq

inductive SameSymbols : Json → Json → Prop
  | refl {document : Json} : SameSymbols document document
  | array {items items' : List Json} (h : List.Forall₂ SameSymbol items items') :
      SameSymbols (.array items) (.array items')

def SameModule : Json → Json → Prop :=
  SameRecord moduleKeys fun key => if key = "name" then Eq else SameSymbols

theorem SameValues.symm {Same : String → Json → Json → Prop}
    (hsymm : ∀ key value value', Same key value value' → Same key value' value)
    {keys : List String} {values values' : List Json} (h : SameValues Same keys values values') :
    SameValues Same keys values' values := by
  induction h with
  | nil => exact .nil
  | cons hvalue _ ih => exact .cons (hsymm _ _ _ hvalue) ih

theorem forall₂_symm {α : Type} {R : α → α → Prop} (hsymm : ∀ a b, R a b → R b a) {l l' : List α}
    (h : List.Forall₂ R l l') : List.Forall₂ R l' l :=
  (h.imp hsymm).flip

theorem SameRecord.symm {keys : List String} {Same : String → Json → Json → Prop}
    (hsymm : ∀ key value value', Same key value value' → Same key value' value)
    {document document' : Json} (h : SameRecord keys Same document document') :
    SameRecord keys Same document' document := by
  cases h with
  | refl => exact .refl
  | array h => exact .array (h.symm hsymm)
  | object h => exact .object fun key hkey => forall₂_symm (hsymm key) (h key hkey)

theorem SameModule.symm {document document' : Json} (h : SameModule document document') :
    SameModule document' document := by
  apply SameRecord.symm ?_ h
  intro key value value'
  split
  · exact Eq.symm
  · intro hvalue
    cases hvalue with
    | refl => exact .refl
    | array h => exact .array (forall₂_symm (fun _ _ h => h.symm fun _ _ _ => Eq.symm) h)

theorem SameValues.refl {Same : String → Json → Json → Prop}
    (hrefl : ∀ key value, Same key value value)
    {keys : List String} {values : List Json} (h : values.length = keys.length) :
    SameValues Same keys values values := by
  induction keys generalizing values with
  | nil =>
    rw [List.length_eq_zero_iff.mp h]
    exact .nil
  | cons key keys ih =>
    cases values with
    | nil => contradiction
    | cons value values => exact .cons (hrefl key value) (ih (Nat.succ.inj h))

theorem SameValues.length_eq {Same : String → Json → Json → Prop} {keys : List String}
    {values values' : List Json} (h : SameValues Same keys values values') :
    values'.length = keys.length := by
  induction h with
  | nil => rfl
  | cons _ _ ih => rw [List.length_cons, List.length_cons, ih]

theorem exists_sameValues_of_once {Same : String → Json → Json → Prop} {keys : List String}
    {members members' : List (List Char × Json)} {values : List Json}
    (honce : List.Forall₂ (fun key value => valuesOf key members = [value]) keys values)
    (h : ∀ key ∈ keys, List.Forall₂ (Same key) (valuesOf key members) (valuesOf key members')) :
    ∃ values', List.Forall₂ (fun key value => valuesOf key members' = [value]) keys values' ∧
      SameValues Same keys values values' := by
  induction honce with
  | nil => exact ⟨[], .nil, .nil⟩
  | @cons key value keys values hvalue _ ih =>
    obtain ⟨hkey, hmore⟩ := List.forall_mem_cons.mp h
    obtain ⟨values', honce', hsame⟩ := ih hmore
    rw [hvalue, List.forall₂_cons_left_iff] at hkey
    obtain ⟨value', rest, hsameValue, hrest, hvalue'⟩ := hkey
    rw [List.forall₂_nil_left_iff.mp hrest] at hvalue'
    exact ⟨value' :: values', .cons hvalue' honce', .cons hsameValue hsame⟩

theorem SameRecord.exists_values {keys : List String} {Same : String → Json → Json → Prop}
    (hrefl : ∀ key value, Same key value value) {document document' : Json}
    (h : SameRecord keys Same document document') {values : List Json}
    (hrecord : IsRecord keys document values) :
    ∃ values', IsRecord keys document' values' ∧ SameValues Same keys values values' := by
  cases h with
  | refl =>
    have hlength : values.length = keys.length := by
      cases hrecord with
      | array hlength => exact hlength
      | object honce => exact honce.length_eq.symm
    exact ⟨values, hrecord, .refl hrefl hlength⟩
  | @array _ items' h =>
    cases hrecord with
    | array _ => exact ⟨items', .array h.length_eq, h⟩
  | object h =>
    cases hrecord with
    | object honce =>
      obtain ⟨values', honce', hsame⟩ := exists_sameValues_of_once honce h
      exact ⟨values', .object honce', hsame⟩

theorem SameValues.eq {keys : List String} {values values' : List Json}
    (h : SameValues (fun _ => Eq) keys values values') : values = values' := by
  induction h with
  | nil => rfl
  | cons hvalue _ ih => rw [hvalue, ih]

theorem IsSymbol.of_sameSymbol {document document' : Json} {symbol : Symbol}
    (h : IsSymbol document symbol) (hsame : SameSymbol document document') :
    IsSymbol document' symbol := by
  obtain ⟨hname, hrecord⟩ := h
  obtain ⟨values, hvalues, heq⟩ := hsame.exists_values (fun _ _ => rfl) hrecord
  rw [← heq.eq] at hvalues
  exact .record hname hvalues

theorem forall₂_isSymbol_of_same {items items' : List Json} {symbols : List Symbol}
    (h : List.Forall₂ IsSymbol items symbols) (hsame : List.Forall₂ SameSymbol items items') :
    List.Forall₂ IsSymbol items' symbols := by
  induction hsame generalizing symbols with
  | nil => exact h
  | cons hitem _ ih =>
    cases h with
    | cons hsymbol hmore => exact .cons (hsymbol.of_sameSymbol hitem) (ih hmore)

theorem SameSymbols.exists_items {items : List Json} {document : Json} {symbols : List Symbol}
    (hsame : SameSymbols (.array items) document) (h : List.Forall₂ IsSymbol items symbols) :
    ∃ items', document = .array items' ∧ List.Forall₂ IsSymbol items' symbols := by
  cases hsame with
  | refl => exact ⟨items, rfl, h⟩
  | array hsame => exact ⟨_, rfl, forall₂_isSymbol_of_same h hsame⟩

theorem IsModule.of_sameModule {document document' : Json} {module : Module}
    (h : IsModule document module) (hsame : SameModule document document') :
    IsModule document' module := by
  obtain ⟨hfuncs, hvars, hrecord⟩ := h
  obtain ⟨values, hvalues, hsameValues⟩ := hsame.exists_values (fun key value => by
    split
    · rfl
    · exact .refl) hrecord
  cases hsameValues with
  | cons hname hmore =>
    cases hmore with
    | cons hfuncItems hmore =>
      cases hmore with
      | cons hvarItems hmore =>
        cases hmore
        rw [if_pos rfl] at hname
        rw [if_neg (by decide)] at hfuncItems hvarItems
        obtain ⟨funcItems, rfl, hfuncs⟩ := hfuncItems.exists_items hfuncs
        obtain ⟨varItems, rfl, hvars⟩ := hvarItems.exists_items hvars
        rw [← hname] at hvalues
        exact .record hfuncs hvars hvalues

/-! ## 5. Texts as bytes -/

theorem utf8DecodeChar?_size_append (before text : List Char) (c : Char) :
    (before ++ c :: text).utf8Encode.utf8DecodeChar? before.utf8Encode.size = some c := by
  rw [ByteArray.utf8DecodeChar?_eq_utf8DecodeChar?_extract, List.utf8Encode_append,
    ByteArray.extract_append_eq_right rfl ByteArray.size_append]
  exact List.utf8DecodeChar?_utf8Encode_cons

theorem size_utf8Encode_concat (before : List Char) (c : Char) :
    (before ++ [c]).utf8Encode.size = before.utf8Encode.size + c.utf8Size := by
  rw [List.utf8Encode_append, ByteArray.size_append, List.utf8Encode_singleton,
    List.size_toByteArray, String.length_utf8EncodeChar]

/-- The bytes of a text are cut into its characters again. -/
theorem ofBytesFrom_utf8Encode (before text : List Char) :
    Piece.ofBytesFrom (before ++ text).utf8Encode before.utf8Encode.size = ofChars text := by
  induction text generalizing before with
  | nil =>
    rw [Piece.ofBytesFrom, dif_neg (by simp)]
    rfl
  | cons c text ih =>
    have hdecode := utf8DecodeChar?_size_append before text c
    have hlt : before.utf8Encode.size < (before ++ c :: text).utf8Encode.size :=
      ByteArray.lt_size_of_isSome_utf8DecodeChar? (by rw [hdecode]; rfl)
    have hmore := ih (before ++ [c])
    rw [size_utf8Encode_concat, List.append_assoc, List.singleton_append] at hmore
    rw [Piece.ofBytesFrom, dif_pos hlt, hdecode]
    dsimp only
    rw [hmore]
    rfl

theorem decodeBytes_toUTF8 (text : String) : decodeBytes text.toUTF8 = decode text := by
  have hbytes : text.toUTF8 = text.toList.utf8Encode := String.utf8Encode_toList.symm
  have hpieces := ofBytesFrom_utf8Encode [] text.toList
  rw [decodeBytes, decode, moduleOfText, hbytes]
  exact congrArg (fun pieces => tellDecoded (decodePieces pieces)) hpieces

/-! ## 6. Decoding -/

/-- Decoding a document of the data format gives a module exactly if the document is one, and it
gives that module; the order of members, other members and blanks have no influence, and neither
has it whether the text is given as bytes. -/
theorem decode_eq_ok_iff {text : String} {document : Json} (h : IsDocument text.toList document) :
    (∀ module, (decode text).value = .ok module ↔ IsModule document module) ∧
      ((¬∃ module, IsModule document module) →
        ∃ fault : DecodeFault, (decode text).value = .error fault) ∧
      (∀ other otherDocument, IsDocument other.toList otherDocument →
        SameModule document otherDocument →
          (decode other).value.toOption = (decode text).value.toOption) ∧
      decodeBytes text.toUTF8 = decode text := by
  have haccepted := fun module => moduleOfText_eq_ok_iff h module
  simp only [decode_value]
  refine ⟨haccepted, ?_, ?_, decodeBytes_toUTF8 text⟩
  · intro hnone
    cases hdecode : moduleOfText text with
    | error fault => exact ⟨fault, rfl⟩
    | ok module => exact absurd ⟨module, (haccepted module).mp hdecode⟩ hnone
  · intro other otherDocument hother hsame
    ext module
    rw [toOption_eq_some_iff, toOption_eq_some_iff, haccepted,
      moduleOfText_eq_ok_iff hother]
    exact ⟨fun h => h.of_sameModule hsame.symm, fun h => h.of_sameModule hsame⟩

def unorderedSample : Module :=
  ⟨"m", [⟨"turn", .other "method", "", "()", by decide⟩],
    [⟨"TAU", .variable, "", "float", by decide⟩]⟩

/-- A text for it, with the members in other orders, members that are no fields, and a record as a
list without keys. -/
def unorderedText : String :=
  "\x7b\"variables\":[[\"TAU\",\"variable\",\"\",\"float\"]],\"x\":0,\"functions\":" ++
    "[\x7b\"sig\":\"()\",\"x\":null,\"type\":\"method\",\"name\":\"turn\",\"doc\":\"\"\x7d], " ++
    "\"name\":\"m\"\x7d"

def unorderedDocument : Json :=
  .object
    [ ("variables".toList, .array [.array [.string "TAU".toList, .string "variable".toList,
        .string "".toList, .string "float".toList]]),
      ("x".toList, .numeral ['0']),
      ("functions".toList, .array [.object
        [ ("sig".toList, .string "()".toList), ("x".toList, .null),
          ("type".toList, .string "method".toList), ("name".toList, .string "turn".toList),
          ("doc".toList, .string "".toList)]]),
      ("name".toList, .string "m".toList)]

theorem isDocument_unorderedText : IsDocument unorderedText.toList unorderedDocument := by
  have hgap : Json.IsGap [] := fun _ h => absurd h List.not_mem_nil
  have hblank : Json.IsGap [' '] := by simp [Json.IsGap]
  have hkey : ∀ (name : String) {lead : List Char}, Json.IsGap lead →
      (∀ c ∈ name.toList, c ≠ '"' ∧ c ≠ '\\' ∧ 0x20 ≤ c.toNat) →
        Json.IsKey (lead ++ '"' :: (name.toList ++ ['"', ':'])) name.toList :=
    fun _ _ hlead hname => .literal hlead (Json.spells_self hname) hgap
  have hstring : ∀ text : String, (∀ c ∈ text.toList, c ≠ '"' ∧ c ≠ '\\' ∧ 0x20 ≤ c.toNat) →
      Json.Denotes ('"' :: (text.toList ++ ['"'])) (.string text.toList) :=
    fun _ htext => .string (Json.spells_self htext)
  -- from the inside out: the records first, then the object around them
  have hvariable := Json.Denotes.array hgap (hstring "TAU" (by simp)) <|
    .cons hgap hgap (hstring "variable" (by simp)) <|
    .cons hgap hgap (hstring "" (by simp)) <|
    .cons hgap hgap (hstring "float" (by simp)) (.nil hgap)
  have hfunction := Json.Denotes.object (hkey "sig" hgap (by simp)) hgap (hstring "()" (by simp)) <|
    .cons hgap (hkey "x" hgap (by simp)) hgap .null <|
    .cons hgap (hkey "type" hgap (by simp)) hgap (hstring "method" (by simp)) <|
    .cons hgap (hkey "name" hgap (by simp)) hgap (hstring "turn" (by simp)) <|
    .cons hgap (hkey "doc" hgap (by simp)) hgap (hstring "" (by simp)) (.nil hgap)
  have hobject := Json.Denotes.object (hkey "variables" hgap (by simp)) hgap
      (.array hgap hvariable (.nil hgap)) <|
    .cons hgap (hkey "x" hgap (by simp)) hgap (.numeral (.parts (.inl rfl) .zero .none .none)) <|
    .cons hgap (hkey "functions" hgap (by simp)) hgap (.array hgap hfunction (.nil hgap)) <|
    .cons hgap (hkey "name" hblank (by simp)) hgap (hstring "m" (by simp)) (.nil hgap)
  have hdocument := IsDocument.padded hgap hobject hgap
  convert hdocument using 1
  · decide +kernel
  · rfl

theorem isModule_unorderedDocument : IsModule unorderedDocument unorderedSample := by
  -- the fields of a record stand in the order of the keys
  have hturn := fun document => @IsSymbol.record document "turn" "method" "" "()" (by decide)
  have htau := fun document => @IsSymbol.record document "TAU" "variable" "" "float" (by decide)
  exact .record
    (.cons (hturn _ (.object (.cons rfl (.cons rfl (.cons rfl (.cons rfl .nil)))))) .nil)
    (.cons (htau _ (.array rfl)) .nil)
    (.object (.cons rfl (.cons rfl (.cons rfl .nil))))

theorem decode_unorderedSample :
    IsDocument unorderedText.toList unorderedDocument ∧ IsModule unorderedDocument unorderedSample ∧
      (decode unorderedText).value = .ok unorderedSample :=
  ⟨isDocument_unorderedText, isModule_unorderedDocument,
    ((decode_eq_ok_iff isDocument_unorderedText).1 _).mpr isModule_unorderedDocument⟩

end ModuleSurface.Exchange
