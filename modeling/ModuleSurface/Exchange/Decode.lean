import ModuleSurface.Json.Record
import ModuleSurface.Module

/-!
# Decode — modules from documents of the exchange format

Every field is required and has to be of its type, a symbol has to have a name, and anything else
in a record is read past, so documents with more in them remain readable.
-/

namespace ModuleSurface.Exchange

open Json (Piece Fault Schema Reader Cause Place)

structure DecodeFault where
  cause : Cause
  place : Option Place
  deriving DecidableEq, Repr

namespace DecodeFault

def ofFault (text : List Piece) (fault : Fault) : DecodeFault :=
  ⟨fault.cause, fault.place? text⟩

def message (fault : DecodeFault) : String :=
  match fault.place with
  | none => fault.cause.message
  | some place =>
      fault.cause.message ++ " at line " ++ toString place.line ++ " column " ++
        toString place.column

end DecodeFault

/-- The value of a field of a draft, unless it is missing. -/
def required {α : Type} (key : String) : Option α → Except Cause α
  | none => .error (.missingField key)
  | some value => .ok value

/-! ## 1. Symbols -/

structure SymbolDraft where
  name : Option String := none
  kind : Option String := none
  doc : Option String := none
  sig : Option String := none

structure SymbolRecord where
  name : String
  kind : String
  doc : String
  sig : String

def textField {Draft : Type} (key : String) (get : Draft → Option String)
    (set : Draft → String → Draft) : Json.Field Draft where
  key
  isGiven draft := (get draft).isSome
  read draft text := (Json.readText text).map fun (value, rest) => (set draft value, rest)

def symbolSchema : Schema SymbolDraft SymbolRecord where
  name := "SymbolRecord"
  fields :=
    [ textField "name" (·.name) ({ · with name := some · }),
      textField "type" (·.kind) ({ · with kind := some · }),
      textField "doc" (·.doc) ({ · with doc := some · }),
      textField "sig" (·.sig) ({ · with sig := some · })]
  empty := {}
  finish draft := do
    let name ← required "name" draft.name
    let kind ← required "type" draft.kind
    let doc ← required "doc" draft.doc
    let sig ← required "sig" draft.sig
    return ⟨name, kind, doc, sig⟩

def readSymbol : Reader Symbol := fun text => do
  let (record, rest) ← symbolSchema.read text
  match Symbol.ofParts? record.name (Kind.ofText record.kind) record.doc record.sig with
  | some symbol => return (symbol, rest)
  | none => throw (.pending .emptyName rest)

/-! ## 2. Modules -/

structure ModuleDraft where
  name : Option String := none
  funcs : Option (List Symbol) := none
  vars : Option (List Symbol) := none

def symbolsField (key : String) (get : ModuleDraft → Option (List Symbol))
    (set : ModuleDraft → List Symbol → ModuleDraft) : Json.Field ModuleDraft where
  key
  isGiven draft := (get draft).isSome
  read draft text :=
    (Json.readList readSymbol text).map fun (value, rest) => (set draft value, rest)

def moduleSchema : Schema ModuleDraft Module where
  name := "Module"
  fields :=
    [ textField "name" (·.name) ({ · with name := some · }),
      symbolsField "functions" (·.funcs) ({ · with funcs := some · }),
      symbolsField "variables" (·.vars) ({ · with vars := some · })]
  empty := {}
  finish draft := do
    let name ← required "name" draft.name
    let funcs ← required "functions" draft.funcs
    let vars ← required "variables" draft.vars
    return ⟨name, funcs, vars⟩

/-! ## 3. Whole documents -/

def decodePieces (text : List Piece) : Except DecodeFault Module :=
  (Json.readDocument moduleSchema.read text).mapError (.ofFault text)

def moduleOfText (text : String) : Except DecodeFault Module :=
  decodePieces (Piece.ofChars text.toList)

def symbolOfText (text : String) : Except DecodeFault Symbol :=
  let pieces := Piece.ofChars text.toList
  (Json.readDocument readSymbol pieces).mapError (.ofFault pieces)

def tellDecoded (decoded : Except DecodeFault Module) : Logged (Except DecodeFault Module) := do
  if let .ok module := decoded then
    Logged.tell (.decoded module.name module.funcs.length module.vars.length)
  return decoded

def decode (text : String) : Logged (Except DecodeFault Module) :=
  tellDecoded (moduleOfText text)

/-- Decodes bytes, which need not encode a text. -/
def decodeBytes (bytes : ByteArray) : Logged (Except DecodeFault Module) :=
  tellDecoded (decodePieces (Piece.ofBytes bytes))

end ModuleSurface.Exchange
