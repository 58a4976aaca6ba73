/-!
# Event — what an operation tells the log, and values that come with what was told

An operation that has something to tell returns its value together with its events, oldest
first.  `Logged` is that pair; binding two such operations puts the events one after another.
-/

namespace ModuleSurface

inductive Severity
  | trace
  | debug
  | info
  | warn
  deriving DecidableEq, Repr

def Severity.word : Severity → String
  | trace => "TRACE"
  | debug => "DEBUG"
  | info => "INFO"
  | warn => "WARN"

inductive Event
  | functionAdded (module symbol : String)
  | variableAdded (module symbol : String)
  | encoded (module : String) (bytes : Nat)
  | decoded (module : String) (funcs vars : Nat)
  | introspected (module : String) (funcs vars : Nat)
  | kindSkipped (module symbol kind : String)
  | emitting (module emitter : String)
  | signatureKept (symbol sig error : String)
  | inconsistent (module finding : String)
  | documentLoaded (path module : String)
  | rendered (module emitter path : String)
  | pathRejected (module path : String)
  | outputUnchanged (path : String)
  | fileWritten (path : String) (bytes : Nat)
  | configAbsent
  | configLoaded (path : String)
  deriving DecidableEq, Repr

namespace Event

def severity : Event → Severity
  | functionAdded .. | variableAdded .. => .trace
  | kindSkipped .. | signatureKept .. | inconsistent .. | pathRejected .. => .warn
  | rendered .. => .info
  | _ => .debug

def message : Event → String
  | functionAdded .. => "add function"
  | variableAdded .. => "add variable"
  | encoded .. => "encoded IR"
  | decoded .. => "decoded IR"
  | introspected .. => "introspected module"
  | kindSkipped .. => "skipping symbol of unsupported kind"
  | emitting .. => "emitting"
  | signatureKept .. => "passing unparsable signature through verbatim"
  | inconsistent .. => "IR consistency issue"
  | documentLoaded .. => "loaded IR document"
  | rendered .. => "rendered module"
  | pathRejected .. => "rejected output path"
  | outputUnchanged .. => "output unchanged"
  | fileWritten .. => "wrote file"
  | configAbsent => "no configuration file, using defaults"
  | configLoaded .. => "loaded configuration"

def fields : Event → List (String × String)
  | functionAdded module symbol => [("module", module), ("symbol", symbol)]
  | variableAdded module symbol => [("module", module), ("symbol", symbol)]
  | encoded module bytes => [("module", module), ("bytes", toString bytes)]
  | decoded module funcs vars =>
      [("module", module), ("functions", toString funcs), ("variables", toString vars)]
  | introspected module funcs vars =>
      [("module", module), ("functions", toString funcs), ("variables", toString vars)]
  | kindSkipped module symbol kind => [("module", module), ("symbol", symbol), ("kind", kind)]
  | emitting module emitter => [("module", module), ("emitter", emitter)]
  | signatureKept symbol sig error => [("symbol", symbol), ("sig", sig), ("error", error)]
  | inconsistent module finding => [("module", module), ("issue", finding)]
  | documentLoaded path module => [("path", path), ("module", module)]
  | rendered module emitter path => [("module", module), ("emitter", emitter), ("path", path)]
  | pathRejected module path => [("module", module), ("path", path)]
  | outputUnchanged path => [("path", path)]
  | fileWritten path bytes => [("path", path), ("bytes", toString bytes)]
  | configAbsent => []
  | configLoaded path => [("path", path)]

end Event

/-- A value together with what was told on the way to it. -/
structure Logged (α : Type) where
  value : α
  events : List Event

namespace Logged

def tell (event : Event) : Logged Unit :=
  ⟨(), [event]⟩

def tellAll (events : List Event) : Logged Unit :=
  ⟨(), events⟩

instance : Monad Logged where
  pure a := ⟨a, []⟩
  bind x f :=
    let y := f x.value
    ⟨y.value, x.events ++ y.events⟩

variable {α β : Type}

@[simp] theorem pure_value (a : α) : (pure a : Logged α).value = a := rfl

@[simp] theorem pure_events (a : α) : (pure a : Logged α).events = [] := rfl

@[simp] theorem bind_value (x : Logged α) (f : α → Logged β) :
    (x >>= f).value = (f x.value).value := rfl

@[simp] theorem bind_events (x : Logged α) (f : α → Logged β) :
    (x >>= f).events = x.events ++ (f x.value).events := rfl

@[simp] theorem tell_events (event : Event) : (tell event).events = [event] := rfl

end Logged

end ModuleSurface
