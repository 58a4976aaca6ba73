import ModuleSurface.Config.Basic
import ModuleSurface.Toml.Document

/-!
# Decode — settings from the entries of a document

A setting has to be of its type.  What is not a setting is passed over, but its scalars have to
be readable.  A section may also be an array of its settings in order; those that are missing keep
their values and those that are too many are not looked at.  A date-time is a section without
settings.
-/

namespace ModuleSurface.Config

open Toml (Node Entries)

/-- A key of a section, and how a value changes what the key stands for; none if the value is not
of the right type. -/
structure SettingKey (α : Type) where
  key : List Char
  put? : Node → α → Option α

variable {α : Type}

def stringKey (key : String) (put : String → α → α) : SettingKey α where
  key := key.toList
  put?
    | .scalar (.string content), settings => some (put (String.ofList content) settings)
    | _, _ => none

def booleanKey (key : String) (put : Bool → α → α) : SettingKey α where
  key := key.toList
  put?
    | .scalar (.boolean value), settings => some (put value settings)
    | _, _ => none

def putEntries? (keys : List (SettingKey α)) : Entries → α → Option α
  | [], settings => some settings
  | (key, node) :: entries, settings =>
      match keys.find? (·.key == key) with
      | some setting => do putEntries? keys entries (← setting.put? node settings)
      | none => if node.isReadable then putEntries? keys entries settings else none

/-- Settings changed by the items of an array, in the order of the keys. -/
def putItems? : List (SettingKey α) → List Node → α → Option α
  | setting :: keys, item :: items, settings => do
      putItems? keys items (← setting.put? item settings)
  | _, _, settings => some settings

def putSection? (keys : List (SettingKey α)) : Node → α → Option α
  | .table _ entries, settings => putEntries? keys entries settings
  | .array _ items, settings => putItems? keys items settings
  | .scalar .dateTime, settings => some settings
  | .scalar _, _ => none

def outputKeys : List (SettingKey OutputSettings) :=
  [ stringKey "dir" fun dir settings => { settings with dir },
    booleanKey "pretty" fun pretty settings => { settings with pretty }]

def renderKeys : List (SettingKey RenderSettings) :=
  [ stringKey "format" fun format settings => { settings with format },
    booleanKey "include_docs" fun includeDocs settings => { settings with includeDocs },
    stringKey "indent" fun indent settings => { settings with indent }]

def checkKeys : List (SettingKey CheckSettings) :=
  [booleanKey "deny_warnings" fun denyWarnings settings => { settings with denyWarnings }]

def sectionKeys : List (SettingKey Config) :=
  [ ⟨"output".toList, fun node config =>
      (putSection? outputKeys node config.output).map fun output => { config with output }⟩,
    ⟨"render".toList, fun node config =>
      (putSection? renderKeys node config.render).map fun render => { config with render }⟩,
    ⟨"check".toList, fun node config =>
      (putSection? checkKeys node config.check).map fun check => { config with check }⟩]

/-- The settings that a document gives; the others have their default values. -/
def ofText? (text : String) : Option Config := do
  putEntries? sectionKeys (← Toml.read? text) {}

end ModuleSurface.Config
