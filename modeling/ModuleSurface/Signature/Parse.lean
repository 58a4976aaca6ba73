import ModuleSurface.Signature.Basic
import ModuleSurface.Signature.Nesting
import ModuleSurface.Text.Blank

/-!
# Parse — from the text of a signature to its parameters

The text between the outer parentheses is cut into slots at the commas on top.  A slot is a
marker, a star parameter or a plain one; what kind of parameter a plain slot gives depends on the
markers before it, and a slash turns all parameters before it into positional-only ones.
-/

namespace ModuleSurface.Signature

open Text (trim)

/-! ## 1. One slot -/

/-- What the text of a slot stands for, before its own parts are looked at. -/
inductive Slot
  | blank
  | slash
  | star
  | varKeyword (body : List Char)
  | varPositional (body : List Char)
  | plain (body : List Char)
  deriving DecidableEq, Repr

def Slot.ofText : List Char → Slot
  | [] => .blank
  | ['/'] => .slash
  | ['*'] => .star
  | '*' :: '*' :: body => .varKeyword body
  | '*' :: body => .varPositional body
  | body => .plain body

/-- A text cut at a character on top, the second part trimmed; without the character there is no
second part, and an empty second part counts as none. -/
def cutTrimmed (target : Char) (text : List Char) : List Char × Option (List Char) :=
  match topCut target .start text with
  | none => (text, none)
  | some (before, after) =>
      let after := trim after
      (before, if after.isEmpty then none else some after)

/-- The parameter that the text behind the stars of a slot gives; none if it has no name. -/
def readParameter (kind : ParameterKind) (body : List Char) : Option Parameter :=
  let (head, value) := cutTrimmed '=' body
  let (name, type) := cutTrimmed ':' head
  let name := trim name
  if name.isEmpty then none
  else
    some
      { name := String.ofList name
        kind
        annotation := type.map String.ofList
        default := value.map String.ofList }

/-! ## 2. The slots in order -/

/-- What the slots read so far have given. -/
structure Reading where
  /-- The parameters, in order. -/
  parameters : List Parameter
  /-- A star has been seen. -/
  keywordOnly : Bool
  /-- A slash has been seen. -/
  slashed : Bool
  /-- A double star has been seen, after which nothing may come. -/
  closed : Bool
  deriving DecidableEq, Repr

namespace Reading

def start : Reading :=
  ⟨[], false, false, false⟩

def add (r : Reading) (position : Nat) (kind : ParameterKind) (body : List Char) :
    Except SignatureFault Reading :=
  match readParameter kind body with
  | none => .error (.emptyParameter position)
  | some p =>
      .ok
        { r with
          parameters := r.parameters ++ [p]
          keywordOnly := r.keywordOnly || kind == .varPositional
          closed := r.closed || kind == .varKeyword }

def take (r : Reading) (position : Nat) (slot : Slot) : Except SignatureFault Reading :=
  match slot with
  | .blank => .error (.emptyParameter position)
  | .slash =>
      if r.closed || r.slashed || r.keywordOnly || r.parameters.isEmpty then
        .error (.misplacedSlash position)
      else
        .ok
          { r with
            parameters := r.parameters.map ({ · with kind := .positionalOnly })
            slashed := true }
  | .star =>
      if r.closed then .error (.afterVarKeyword position) else .ok { r with keywordOnly := true }
  | .varKeyword body =>
      if r.closed then .error (.afterVarKeyword position) else r.add position .varKeyword body
  | .varPositional body =>
      if r.closed then .error (.afterVarKeyword position) else r.add position .varPositional body
  | .plain body =>
      if r.closed then .error (.afterVarKeyword position)
      else r.add position (if r.keywordOnly then .keywordOnly else .positionalOrKeyword) body

/-- Reads the texts of slots, the first of which is at the given position. -/
def takeAll (r : Reading) (position : Nat) : List (List Char) → Except SignatureFault Reading
  | [] => .ok r
  | text :: texts => do
      let r ← r.take position (.ofText (trim text))
      takeAll r (position + 1) texts

end Reading

/-! ## 3. The whole text -/

/-- The parameters that the text between the outer parentheses gives; `whole` is the text that a
fault is told about. -/
def readParameters (whole inner : List Char) : Except SignatureFault (List Parameter) :=
  if (trim inner).isEmpty then .ok []
  else
    match topPieces ',' .start inner with
    | none => .error (.unbalanced (String.ofList whole))
    | some texts => do return (← Reading.start.takeAll 0 texts).parameters

def readReturns (after : List Char) : Except SignatureFault (Option String) :=
  match trim after with
  | [] => .ok none
  | '-' :: '>' :: type =>
      if (trim type).isEmpty then .error (.trailingText (String.ofList (trim after)))
      else .ok (some (String.ofList (trim type)))
  | other => .error (.trailingText (String.ofList other))

def ofChars (text : List Char) : Except SignatureFault Signature :=
  let text := trim text
  match text with
  | '(' :: rest =>
      match closeGroup ⟨[')'], .outside⟩ rest with
      | none => .error (.unbalanced (String.ofList text))
      | some (inner, after) => do
          let returns ← readReturns after
          let parameters ← readParameters text inner
          return { parameters, returns }
  | _ => .error (.missingParen (String.ofList text))

def parse (text : String) : Except SignatureFault Signature :=
  ofChars text.toList

end ModuleSurface.Signature
