import ModuleSurface.Config.Basic

/-!
# Arguments — what a command line asks for

A command line is a command with its options and its file.  An option with a value takes what is
attached to it, or else the next argument, unless that looks like an option itself.  Short options
may be put together behind one hyphen.  Two hyphens alone end the options.  What counts for the
whole run may be said before the command or after it; what is said after it goes first.
-/

namespace ModuleSurface

inductive Command
  | check (file : String) (denyWarnings : Bool)
  | format (file : String) (onlyLook compact : Bool)
  | render (file : String) (format output : Option String) (dryRun noDocs : Bool)
  | init (output : String) (force : Bool)
  deriving DecidableEq, Repr

structure Invocation where
  config : Option String
  verbosity : Nat
  command : Command
  deriving DecidableEq, Repr

/-- Why there is no command to run: something is wrong, or something else was asked for. -/
inductive Diversion
  | misuse
  | version
  | help
  deriving DecidableEq, Repr

namespace Arguments

/-! ## 1. Words -/

inductive Verb
  | check
  | format
  | render
  | init
  deriving DecidableEq, Repr

def Verb.ofWord? : String → Option Verb
  | "check" => some .check
  | "fmt" => some .format
  | "render" => some .render
  | "init" => some .init
  | _ => none

def helpWord : String :=
  "help"

def Verb.needsFile : Verb → Bool
  | init => false
  | _ => true

inductive Flag
  | verbose
  | version
  | help
  | denyWarnings
  | check
  | compact
  | dryRun
  | noDocs
  | force
  deriving DecidableEq, Repr

inductive Setting
  | config
  | format
  | output
  deriving DecidableEq, Repr

/-- Whether a value is a path; paths are not empty. -/
def Setting.isPath : Setting → Bool
  | format => false
  | _ => true

inductive Switch
  | flag (flag : Flag)
  | setting (setting : Setting)
  deriving DecidableEq, Repr

/-- The option of a long name; `none` stands for the place before the command. -/
def longSwitch? : Option Verb → String → Option Switch
  | _, "config" => some (.setting .config)
  | _, "verbose" => some (.flag .verbose)
  | _, "help" => some (.flag .help)
  | none, "version" => some (.flag .version)
  | some .check, "deny-warnings" => some (.flag .denyWarnings)
  | some .format, "check" => some (.flag .check)
  | some .format, "compact" => some (.flag .compact)
  | some .render, "format" => some (.setting .format)
  | some .render, "output" => some (.setting .output)
  | some .render, "dry-run" => some (.flag .dryRun)
  | some .render, "no-docs" => some (.flag .noDocs)
  | some .init, "output" => some (.setting .output)
  | some .init, "force" => some (.flag .force)
  | _, _ => none

def shortSwitch? : Option Verb → Char → Option Switch
  | _, 'c' => some (.setting .config)
  | _, 'v' => some (.flag .verbose)
  | _, 'h' => some (.flag .help)
  | none, 'V' => some (.flag .version)
  | some .render, 'f' => some (.setting .format)
  | some .render, 'o' => some (.setting .output)
  | some .init, 'o' => some (.setting .output)
  | _, _ => none

/-! ## 2. Reading -/

/-- What has been read of a command line: for the whole run from before the command, and since
then. -/
structure Reading where
  verb : Option Verb := none
  outerConfig : Option String := none
  outerVerbosity : Nat := 0
  verbosity : Nat := 0
  flags : List Flag := []
  values : List (Setting × String) := []
  file : Option String := none
  /-- The option that waits for its value. -/
  awaiting : Option Setting := none
  /-- Whether the options have ended. -/
  isEnded : Bool := false

namespace Reading

def value? (reading : Reading) (setting : Setting) : Option String :=
  reading.values.lookup setting

def has (reading : Reading) (flag : Flag) : Bool :=
  reading.flags.contains flag

/-- Takes a flag.  Only the one for more to be told may be given again. -/
def raise (reading : Reading) : Flag → Except Diversion Reading
  | .version => .error .version
  | .help => .error .help
  | .verbose => .ok { reading with verbosity := reading.verbosity + 1 }
  | flag =>
      if reading.has flag then .error .misuse
      else .ok { reading with flags := flag :: reading.flags }

def give (reading : Reading) (setting : Setting) (value : String) : Except Diversion Reading :=
  if (reading.value? setting).isSome || (setting.isPath && value == "") then .error .misuse
  else .ok { reading with values := (setting, value) :: reading.values, awaiting := none }

/-- Takes an argument that is neither an option nor the value of one. -/
def takeWord (reading : Reading) (word : String) : Except Diversion Reading :=
  match reading.verb with
  | none =>
      if reading.isEnded then .error .misuse
      else
        match Verb.ofWord? word with
        | none => .error .misuse
        | some verb =>
            .ok
              { verb
                outerConfig := reading.value? .config
                outerVerbosity := reading.verbosity }
  | some verb =>
      if verb.needsFile && reading.file.isNone && word != "" then
        .ok { reading with file := some word }
      else .error .misuse

def takeLong (reading : Reading) (text : List Char) : Except Diversion Reading :=
  let name := String.ofList (text.takeWhile (· != '='))
  let value? := (text.dropWhile (· != '=')).tail?
  match longSwitch? reading.verb name, value? with
  | some (.flag flag), none => reading.raise flag
  | some (.setting setting), none => .ok { reading with awaiting := some setting }
  | some (.setting setting), some value => reading.give setting (String.ofList value)
  | _, _ => .error .misuse

def takeShort (reading : Reading) : List Char → Except Diversion Reading
  | [] => .ok reading
  | c :: text =>
      match shortSwitch? reading.verb c with
      | none => .error .misuse
      | some (.flag flag) => do (← reading.raise flag).takeShort text
      | some (.setting setting) =>
          match text with
          | [] => .ok { reading with awaiting := some setting }
          | '=' :: value => reading.give setting (String.ofList value)
          | value => reading.give setting (String.ofList value)

/-- Takes an argument while the options have not ended. -/
def takeOpen (reading : Reading) (argument : String) : Except Diversion Reading :=
  match reading.awaiting, argument.toList with
  | some setting, text =>
      match text with
      | '-' :: _ :: _ => .error .misuse
      | _ => reading.give setting argument
  | none, ['-', '-'] => .ok { reading with isEnded := true }
  | none, '-' :: '-' :: text => reading.takeLong text
  | none, '-' :: c :: text => reading.takeShort (c :: text)
  | none, _ => reading.takeWord argument

def take (reading : Reading) (argument : String) : Except Diversion Reading :=
  if reading.isEnded then reading.takeWord argument else reading.takeOpen argument

def asksHelp (reading : Reading) (argument : String) : Bool :=
  reading.verb.isNone && reading.awaiting.isNone && !reading.isEnded && argument == helpWord

/-- What the arguments behind the word for help come to: it may be help for one command. -/
def helpFor : List String → Diversion
  | [] => .help
  | [word] => if (Verb.ofWord? word).isSome || word == helpWord then .help else .misuse
  | _ => .misuse

def takeAll (reading : Reading) : List String → Except Diversion Reading
  | [] => .ok reading
  | argument :: arguments =>
      if reading.asksHelp argument then .error (helpFor arguments)
      else do (← reading.take argument).takeAll arguments

def command? (reading : Reading) : Option Command :=
  match reading.verb, reading.file with
  | some .check, some file => some (.check file (reading.has .denyWarnings))
  | some .format, some file => some (.format file (reading.has .check) (reading.has .compact))
  | some .render, some file =>
      some (.render file (reading.value? .format) (reading.value? .output) (reading.has .dryRun)
        (reading.has .noDocs))
  | some .init, _ =>
      some (.init ((reading.value? .output).getD Config.fileName) (reading.has .force))
  | _, _ => none

def finish (reading : Reading) : Except Diversion Invocation :=
  match reading.awaiting, reading.command? with
  | none, some command =>
      .ok
        { config := (reading.value? .config).or reading.outerConfig
          verbosity :=
            if reading.verbosity = 0 then reading.outerVerbosity else reading.verbosity
          command }
  | _, _ => .error .misuse

end Reading

end Arguments

def Invocation.ofArguments (arguments : List String) : Except Diversion Invocation := do
  (← Arguments.Reading.takeAll {} arguments).finish

end ModuleSurface
