/-!
# Signature — the parameters and the return annotation of a function, and their written form

The written form is the one a scripting runtime prints for a callable, for instance
`(a: int, b: str = 'x', /, c=None, *args: int, d: bool = True, **kwargs) -> dict`.
A slash follows the last positional-only parameter, and a lone star stands before the first
keyword-only parameter when there is no star parameter to do its work.
-/

namespace ModuleSurface

inductive ParameterKind
  | positionalOnly
  | positionalOrKeyword
  | varPositional
  | keywordOnly
  | varKeyword
  deriving DecidableEq, Repr

def ParameterKind.isVariadic : ParameterKind → Bool
  | varPositional | varKeyword => true
  | _ => false

def ParameterKind.stars : ParameterKind → String
  | varPositional => "*"
  | varKeyword => "**"
  | _ => ""

/-- One parameter; annotation and default are kept as text. -/
structure Parameter where
  name : String
  kind : ParameterKind
  annotation : Option String
  default : Option String
  deriving DecidableEq, Repr

namespace Parameter

def isRequired (p : Parameter) : Bool :=
  p.default.isNone && !p.kind.isVariadic

def renderTail : Option String → Option String → String
  | none, none => ""
  | none, some value => "=" ++ value
  | some type, none => ": " ++ type
  | some type, some value => ": " ++ type ++ " = " ++ value

def render (p : Parameter) : String :=
  p.kind.stars ++ p.name ++ renderTail p.annotation p.default

end Parameter

structure Signature where
  parameters : List Parameter
  returns : Option String
  deriving DecidableEq, Repr

namespace Signature

def find? (s : Signature) (name : String) : Option Parameter :=
  s.parameters.find? (·.name == name)

def isVariadic (s : Signature) : Bool :=
  s.parameters.any (·.kind.isVariadic)

def required (s : Signature) : List Parameter :=
  s.parameters.filter (·.isRequired)

def hasKind (parameters : List Parameter) (kind : ParameterKind) : Bool :=
  parameters.any (·.kind == kind)

/-- What is written before a parameter; `starred` when a star has been written or is to come. -/
def markerBefore (starred : Bool) (p : Parameter) : List String :=
  if p.kind = .keywordOnly ∧ starred = false then ["*"] else []

def markerAfter (p : Parameter) (rest : List Parameter) : List String :=
  if p.kind = .positionalOnly ∧ rest.head?.map (·.kind) ≠ some .positionalOnly then ["/"] else []

/-- The written parameters and markers, one text for each place between commas. -/
def renderSlots (starred : Bool) : List Parameter → List String
  | [] => []
  | p :: rest =>
      markerBefore starred p ++ p.render :: markerAfter p rest ++
        renderSlots (starred || p.kind == .keywordOnly) rest

def renderReturns : Option String → String
  | none => ""
  | some type => " -> " ++ type

def render (s : Signature) : String :=
  "(" ++ ", ".intercalate (renderSlots (hasKind s.parameters .varPositional) s.parameters) ++ ")" ++
    renderReturns s.returns

end Signature

/-- Why a text is no signature.  Positions count the places between commas from zero. -/
inductive SignatureFault
  | missingParen (text : String)
  | unbalanced (text : String)
  | emptyParameter (position : Nat)
  | misplacedSlash (position : Nat)
  | afterVarKeyword (position : Nat)
  | trailingText (text : String)
  deriving DecidableEq, Repr

def SignatureFault.message : SignatureFault → String
  | missingParen text => s!"expected '(' at the start of '{text}'"
  | unbalanced text => s!"unbalanced brackets or quotes in '{text}'"
  | emptyParameter position => s!"empty parameter at position {position}"
  | misplacedSlash position => s!"misplaced '/' marker at position {position}"
  | afterVarKeyword position => s!"parameter after '**' at position {position}"
  | trailingText text => s!"unexpected trailing text '{text}'"

end ModuleSurface
