/-!
# Node — values of the configuration language, with where their tables come from

A table remembers how it came about, because that decides who may still add to it: a table in
braces is finished, one with a header may get further tables but no dotted keys, one that only
stands on the way to a header may get a header of its own, and one that a dotted key made may only
get further dotted keys and tables.
-/

namespace ModuleSurface.Toml

inductive Origin
  /-- It is written in braces. -/
  | braces
  /-- It has a header, or is the root of the document. -/
  | header
  /-- It stands on the way to a header. -/
  | implied
  /-- It stands on the way of a dotted key. -/
  | dotted
  deriving DecidableEq, Repr

/-- Values without parts.  A float is kept as its text, a date-time is not looked into. -/
inductive Scalar
  | string (content : List Char)
  | integer (value : Int)
  | float (text : List Char)
  | boolean (value : Bool)
  | dateTime
  /-- It is written like a number, but stands for none. -/
  | unreadable
  deriving DecidableEq, Repr

/-- Values.  An array of tables is one that is made of headers. -/
inductive Node
  | scalar (value : Scalar)
  | array (ofTables : Bool) (items : List Node)
  | table (origin : Origin) (entries : List (List Char × Node))
  deriving Repr

abbrev Entries := List (List Char × Node)

namespace Entries

def find? (key : List Char) : Entries → Option Node
  | [] => none
  | (known, node) :: rest => if known = key then some node else find? key rest

/-- Gives a key a value, in the place of its former value or at the end. -/
def put (key : List Char) (node : Node) : Entries → Entries
  | [] => [(key, node)]
  | (known, old) :: rest =>
      if known = key then (known, node) :: rest else (known, old) :: put key node rest

end Entries

/-! ## 1. Keys with a value -/

/-- Whether dotted keys may lead through a table, and to its end if `last`. -/
def Origin.admitsDotted (last : Bool) : Origin → Bool
  | dotted => true
  | implied => !last
  | header | braces => false

/-- The entries with a further one, whose key is the last of a dotted key with the given path
before it; none if the key has a value, or if the path leads where it may not. -/
def assign (key : List Char) (value : Node) : List (List Char) → Entries → Option Entries
  | [], entries =>
      match entries.find? key with
      | some _ => none
      | none => some (entries ++ [(key, value)])
  | step :: path, entries =>
      match entries.find? step with
      | none =>
          (assign key value path []).map fun inner => entries ++ [(step, .table .dotted inner)]
      | some (.table origin inner) =>
          if origin.admitsDotted path.isEmpty then
            (assign key value path inner).map fun inner => entries.put step (.table origin inner)
          else none
      | some (.array true items) =>
          match items.getLast? with
          | some (.table origin inner) =>
              if path.isEmpty then none
              else
                (assign key value path inner).map fun inner =>
                  entries.put step (.array true (items.dropLast ++ [.table origin inner]))
          | _ => none
      | some _ => none

/-! ## 2. Headers -/

/-- Changes the table that the path of a header leads to; tables on the way are made if they are
missing. -/
def changeAt (change : Entries → Option Entries) : List (List Char) → Entries → Option Entries
  | [], entries => change entries
  | step :: path, entries =>
      match entries.find? step with
      | none =>
          (changeAt change path []).map fun inner => entries ++ [(step, .table .implied inner)]
      | some (.table .braces _) => none
      | some (.table origin inner) =>
          (changeAt change path inner).map fun inner => entries.put step (.table origin inner)
      | some (.array true items) =>
          match items.getLast? with
          | some (.table origin inner) =>
              (changeAt change path inner).map fun inner =>
                entries.put step (.array true (items.dropLast ++ [.table origin inner]))
          | _ => none
      | some _ => none

/-- The entries of the table that a header opens: none to begin with, those of a table that only
stood on the way to other headers, or nothing if the header may not stand here. -/
def opened? (key : List Char) : List (List Char) → Entries → Option Entries
  | [], entries =>
      match entries.find? key with
      | none => some []
      | some (.table .implied inner) => some inner
      | some _ => none
  | step :: path, entries =>
      match entries.find? step with
      | none => some []
      | some (.table .braces _) => none
      | some (.table _ inner) => opened? key path inner
      | some (.array true items) =>
          match items.getLast? with
          | some (.table _ inner) => opened? key path inner
          | _ => none
      | some _ => none

def putTable (key : List Char) (table : Entries) (entries : Entries) : Option Entries :=
  some (entries.put key (.table .header table))

/-- Puts a finished table at the end of the array of tables under its key. -/
def pushTable (key : List Char) (table : Entries) (entries : Entries) : Option Entries :=
  match entries.find? key with
  | none => some (entries ++ [(key, .array true [.table .header table])])
  | some (.array true items) =>
      some (entries.put key (.array true (items ++ [.table .header table])))
  | some _ => none

end ModuleSurface.Toml
