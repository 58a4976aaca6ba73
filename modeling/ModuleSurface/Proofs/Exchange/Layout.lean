import ModuleSurface.Exchange.Encode
import ModuleSurface.Proofs.Json.Layout
import ModuleSurface.Proofs.Json.Runs

/-!
# Layout — the two encodings of a module, and the bytes that a destination gets

What is proved of written documents holds of modules, whose documents have no numbers at all.  A
destination is never given a text: it gets the bytes of many runs, which are put as one run would be
(`putEach_eq_put`) and make up the text only together.
-/

namespace ModuleSurface

open Json (Layout IsWritable IsDocument squeeze)

/-! ## 1. Modules as documents -/

theorem Symbol.isWritable_toJson (symbol : Symbol) : symbol.toJson.IsWritable := by
  apply IsWritable.object
  simp only [List.forall_mem_cons]
  exact ⟨.string _, .string _, .string _, .string _, fun _ h => absurd h List.not_mem_nil⟩

/-- Symbols as a list of objects, each with its four texts under their keys. -/
def symbolList (symbols : List Symbol) : Json :=
  .array <| symbols.map fun symbol => .object
    [("name".toList, .string symbol.name.toList), ("type".toList, .string symbol.kind.text.toList),
      ("doc".toList, .string symbol.doc.toList), ("sig".toList, .string symbol.sig.toList)]

theorem isWritable_symbolList (symbols : List Symbol) : (symbolList symbols).IsWritable := by
  apply IsWritable.array
  rw [List.forall_mem_map]
  exact fun symbol _ => symbol.isWritable_toJson

theorem Module.isWritable_toJson (module : Module) : module.toJson.IsWritable := by
  apply IsWritable.object
  simp only [List.forall_mem_cons]
  exact ⟨.string _, isWritable_symbolList _, isWritable_symbolList _,
    fun _ h => absurd h List.not_mem_nil⟩

/-- The number of line breaks in a list of so many symbols. -/
def listBreaks (size : Nat) : Nat :=
  if size = 0 then 0 else 6 * size + 1

theorem breaks_symbolList (symbols : List Symbol) :
    (symbolList symbols).breaks = listBreaks symbols.length := by
  show (Json.array (symbols.map Symbol.toJson)).breaks = _
  have hsymbol : ∀ symbol : Symbol, symbol.toJson.breaks = 5 := fun _ => rfl
  have hmore : ∀ symbols : List Symbol,
      Json.breaksOfItems (symbols.map Symbol.toJson) = 6 * symbols.length := by
    intro symbols
    induction symbols with
    | nil => rfl
    | cons symbol symbols ih =>
      rw [List.map_cons, Json.breaksOfItems, ih, hsymbol, List.length_cons]
      omega
  cases symbols with
  | nil => rfl
  | cons symbol symbols =>
    rw [List.map_cons, Json.breaks, hsymbol, hmore, listBreaks, List.length_cons,
      if_neg (by omega)]
    omega

theorem Module.breaks_toJson (module : Module) :
    module.toJson.breaks = 4 + listBreaks module.funcs.length + listBreaks module.vars.length := by
  rw [← breaks_symbolList, ← breaks_symbolList]
  show 2 + 0 + (1 + (symbolList module.funcs).breaks +
    (1 + (symbolList module.vars).breaks + 0)) = _
  omega

namespace Exchange

/-! ## 2. Destinations -/

namespace Destination

theorem put_nil (destination : Destination) : destination.put [] = (.ok (), destination) := by
  obtain ⟨held, _ | room⟩ := destination
  · simp [put]
  · simp [put]

theorem put_some (held : List UInt8) (room : Nat) (bytes : List UInt8) :
    (put bytes ⟨held, some room⟩).2.held = held ++ bytes.take room ∧
      ((put bytes ⟨held, some room⟩).1 = .ok () ↔ bytes.length ≤ room) := by
  refine ⟨rfl, ?_⟩
  by_cases hroom : bytes.length ≤ room <;> simp [put, hroom]

theorem put_append (bytes more : List UInt8) (destination : Destination) :
    destination.put (bytes ++ more) =
      match destination.put bytes with
      | (.ok (), next) => next.put more
      | (.error fault, last) => (.error fault, last) := by
  obtain ⟨held, _ | room⟩ := destination
  · simp [put]
  · by_cases hroom : bytes.length ≤ room
    · have htake : bytes.take room = bytes := List.take_of_length_le hroom
      have hfits : bytes.length + more.length ≤ room ↔ more.length ≤ room - bytes.length := by omega
      simp only [put, hroom, if_true, List.length_append, List.take_append, htake, hfits,
        List.append_assoc, Nat.sub_sub]
    · -- nothing is left of the room, and the first byte without room ends it all
      have hfits : ¬ bytes.length + more.length ≤ room := by omega
      have hfull : room - bytes.length = 0 := by omega
      have hfull' : room - (bytes.length + more.length) = 0 := by omega
      simp only [put, hroom, hfits, hfull, hfull', if_false, List.length_append, List.take_append,
        List.take_zero, List.append_nil]

/-- However bytes are cut into runs, a destination gets them as if they were one. -/
theorem putEach_eq_put (runs : List (List UInt8)) (destination : Destination) :
    destination.putEach runs = destination.put runs.flatten := by
  induction runs generalizing destination with
  | nil => exact destination.put_nil.symm
  | cons bytes more ih =>
    -- the run that finds no room is the last one, on its own or as a part of all
    rw [List.flatten_cons, put_append, putEach]
    generalize destination.put bytes = result
    obtain ⟨fault | _, next⟩ := result
    · rfl
    · exact ih next

end Destination

def bytes (text : String) : List UInt8 :=
  text.toUTF8.data.toList

theorem bytes_ofList (text : List Char) :
    bytes (String.ofList text) = text.flatMap String.utf8EncodeChar := by
  rw [bytes, String.toUTF8, String.toByteArray_ofList, List.utf8Encode, List.data_toByteArray]

variable (layout : Layout) (module : Module)

theorem writeTo_eq_put (destination : Destination) :
    writeTo layout module destination = destination.put (bytes (encode layout module).value) := by
  have hruns := Json.flatten_runs layout 0 module.toJson
  calc writeTo layout module destination
      = destination.put ((module.toJson.runs layout 0).flatten.flatMap String.utf8EncodeChar) := by
        rw [writeTo, Destination.putEach_eq_put, ← List.flatMap_def, ← List.flatMap_id,
          List.flatMap_assoc]
        rfl
    _ = destination.put (bytes (encode layout module).value) := by
        rw [hruns, ← bytes_ofList]
        rfl

/-- A text is given back if there is room for all of its bytes. -/
theorem textWithin_eq (room : Option Nat) :
    textWithin room layout module =
      if room.any (· < (encode layout module).value.utf8ByteSize) then .error {}
      else .ok (encode layout module).value := by
  -- from here on nothing depends on what the text is
  generalize htext : (encode layout module).value = text
  have hsize : (bytes text).length = text.utf8ByteSize := rfl
  have hback : (String.fromUTF8? (bytes text).toByteArray).getD "" = text := by
    have hbytes : (bytes text).toByteArray = text.toUTF8 := by
      apply ByteArray.ext
      rw [List.data_toByteArray, bytes, Array.toArray_toList]
    have hvalid : String.fromUTF8? text.toUTF8 = some text := dif_pos text.isValidUTF8
    rw [hbytes, hvalid, Option.getD_some]
  rw [textWithin, writeTo_eq_put, htext]
  cases room with
  | none => simp [Destination.put, hback]
  | some room =>
    by_cases hroom : text.utf8ByteSize ≤ room
    · have htake : (bytes text).take room = bytes text := List.take_of_length_le hroom
      simp [Destination.put, hsize, hroom, htake, hback]
    · simp [Destination.put, hsize, hroom, Nat.lt_of_not_le hroom]

/-! ## 3. Both encodings -/

/-- The two encodings of a module differ only in layout, the line feeds of the pretty one are those
that its symbols take up whatever they say, both stand for the module with all of its keys, and a
destination gets the bytes of either. -/
theorem encode_layouts :
    (∀ layout, squeeze (encode layout module).value.toList =
        (encode .compact module).value.toList) ∧
      '\n' ∉ (encode .compact module).value.toList ∧
      (canonicalText .compact module).value.toList =
        (encode .compact module).value.toList ++ ['\n'] ∧
      (encode .pretty module).value.toList.count '\n' =
        4 + listBreaks module.funcs.length + listBreaks module.vars.length ∧
      (∀ layout document,
        IsDocument (encode layout module).value.toList document ↔
          document = .object
            [("name".toList, .string module.name.toList),
              ("functions".toList, symbolList module.funcs),
              ("variables".toList, symbolList module.vars)]) ∧
      (∀ layout held, writeTo layout module ⟨held, none⟩ =
        (.ok (), ⟨held ++ bytes (encode layout module).value, none⟩)) ∧
      ∀ layout held room,
        (writeTo layout module ⟨held, some room⟩).2.held =
            held ++ (bytes (encode layout module).value).take room ∧
          ((writeTo layout module ⟨held, some room⟩).1 = .ok () ↔
            (bytes (encode layout module).value).length ≤ room) := by
  -- an encoding is what is written for the document of the module, at no depth
  have hvalue : ∀ layout, (encode layout module).value.toList = module.toJson.write layout 0 :=
    fun layout => String.toList_ofList
  have hcount := fun layout => Json.count_write module.isWritable_toJson layout 0
  refine ⟨fun layout => ?_, ?_, ?_, ?_, fun layout document => ?_, fun layout held => ?_,
    fun layout held room => ?_⟩
  · have hsqueeze := Json.squeezes_write module.isWritable_toJson layout 0 0 []
    rw [hvalue, hvalue]
    simpa [squeeze, Json.squeezeFrom] using hsqueeze
  · rw [hvalue, ← List.count_eq_zero, hcount]
    exact Nat.zero_mul _
  · exact String.toList_append
  · rw [hvalue, hcount, module.breaks_toJson]
    exact Nat.one_mul _
  · have hiff := Json.isDocument_write_iff module.isWritable_toJson layout Json.isGap_nil document
    rwa [List.append_nil, ← hvalue] at hiff
  · rw [writeTo_eq_put]
    rfl
  · rw [writeTo_eq_put]
    exact Destination.put_some held room _

end Exchange

end ModuleSurface
