/-!
# Symbol — one public name of a module, with its kind, documentation and signature text

The kind is an open tag: a kind that is neither function nor variable is carried as its text.
A symbol always has a name; its documentation and its signature may be empty.
-/

namespace ModuleSurface

inductive Kind
  | function
  | variable
  | other (text : String)
  deriving DecidableEq, Repr

namespace Kind

def ofText (text : String) : Kind :=
  if text = "function" then .function
  else if text = "variable" then .variable
  else .other text

def text : Kind → String
  | .function => "function"
  | .variable => "variable"
  | .other text => text

/-- Whether the kind is one that modules have a partition for. -/
def isKnown : Kind → Bool
  | .other _ => false
  | _ => true

@[simp] theorem text_ofText (text : String) : (ofText text).text = text := by
  unfold ofText
  split
  · simp [Kind.text, *]
  · split <;> simp [Kind.text, *]

end Kind

structure Symbol where
  name : String
  kind : Kind
  doc : String
  sig : String
  name_ne : name ≠ ""
  deriving DecidableEq, Repr

namespace Symbol

/-- The symbol of the given parts, unless its name is empty. -/
def ofParts? (name : String) (kind : Kind) (doc sig : String) : Option Symbol :=
  if h : name = "" then none else some ⟨name, kind, doc, sig, h⟩

def hasDoc (symbol : Symbol) : Bool :=
  symbol.doc != ""

def hasSig (symbol : Symbol) : Bool :=
  symbol.sig != ""

theorem ofParts?_eq_none_iff (name : String) (kind : Kind) (doc sig : String) :
    ofParts? name kind doc sig = none ↔ name = "" := by
  unfold ofParts?
  split <;> simp_all

end Symbol

end ModuleSurface
