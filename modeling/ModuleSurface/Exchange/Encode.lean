import ModuleSurface.Json.Runs
import ModuleSurface.Module

/-!
# Encode — modules as documents of the exchange format

A module is a record of its name and its two partitions, a symbol a record of four strings.  Every
field is written, and always in the same order.  A text may also be written to a destination for
bytes, which keeps what it has room for.
-/

namespace ModuleSurface

open Json (Layout)

def Symbol.toJson (symbol : Symbol) : Json :=
  .object
    [("name".toList, .string symbol.name.toList), ("type".toList, .string symbol.kind.text.toList),
      ("doc".toList, .string symbol.doc.toList), ("sig".toList, .string symbol.sig.toList)]

def Module.toJson (module : Module) : Json :=
  .object
    [("name".toList, .string module.name.toList),
      ("functions".toList, .array (module.funcs.map Symbol.toJson)),
      ("variables".toList, .array (module.vars.map Symbol.toJson))]

namespace Exchange

def text (layout : Layout) (module : Module) : String :=
  String.ofList (module.toJson.render layout)

def symbolText (layout : Layout) (symbol : Symbol) : String :=
  String.ofList (symbol.toJson.render layout)

/-- Encodes a module and tells how many bytes the text has. -/
def encode (layout : Layout) (module : Module) : Logged String := do
  let text := text layout module
  Logged.tell (.encoded module.name text.utf8ByteSize)
  return text

/-- The text of a module in the form in which it is kept: encoded, with a line feed at its end. -/
def canonicalText (layout : Layout) (module : Module) : Logged String := do
  return (← encode layout module) ++ "\n"

/-! ## Destinations -/

structure OutOfRoom where
  deriving DecidableEq, Repr

def OutOfRoom.message (_ : OutOfRoom) : String :=
  "failed to write whole buffer"

/-- A destination for bytes: those that it holds, and for how many more it has room, if there is a
limit. -/
structure Destination where
  held : List UInt8
  room : Option Nat
  deriving DecidableEq, Repr

namespace Destination

/-- Puts bytes behind those that are held, as many as there is room for. -/
def put (bytes : List UInt8) (destination : Destination) : Except OutOfRoom Unit × Destination :=
  match destination.room with
  | none => (.ok (), ⟨destination.held ++ bytes, none⟩)
  | some room =>
      (if bytes.length ≤ room then .ok () else .error {},
        ⟨destination.held ++ bytes.take room, some (room - bytes.length)⟩)

/-- Puts one run of bytes after the other, up to the first that there is no room for. -/
def putEach : List (List UInt8) → Destination → Except OutOfRoom Unit × Destination
  | [], destination => (.ok (), destination)
  | bytes :: more, destination =>
      match destination.put bytes with
      | (.ok (), next) => putEach more next
      | (.error fault, last) => (.error fault, last)

end Destination

/-- Hands a module on to a destination, run by run. -/
def writeTo (layout : Layout) (module : Module) :
    Destination → Except OutOfRoom Unit × Destination :=
  Destination.putEach ((module.toJson.runs layout 0).map (·.flatMap String.utf8EncodeChar))

/-- The text of a module, written to a destination that has room for some bytes or has no limit. -/
def textWithin (room : Option Nat) (layout : Layout) (module : Module) :
    Except OutOfRoom String :=
  match writeTo layout module ⟨[], room⟩ with
  | (.ok (), last) => .ok ((String.fromUTF8? last.held.toByteArray).getD "")
  | (.error fault, _) => .error fault

end Exchange

end ModuleSurface
