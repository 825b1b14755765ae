/-!
# ThreadTrace.CommandLine.Options — what the user asks for

Arguments are read from left to right.  A value is examined when the next argument with a meaning of
its own comes, or at the end; so an unknown option is reported before a bad value in front of it.
-/

namespace ThreadTrace.CommandLine

structure Options where
  trace : String
  /-- List every event. -/
  events : Bool
  /-- Write the timeline to this file. -/
  target : Option String
  quiet : Bool
  deriving DecidableEq

/-- Why arguments give no options. -/
inductive UsageError where
  | missingArgument
  | unknownArgument
  /-- An option that may be given once was given twice. -/
  | conflict
  | invalidValue
  | tooManyValues
  | help
  deriving DecidableEq

/-- Asking for help is no failure. -/
def UsageError.exitCode : UsageError → Nat
  | help => 0
  | _ => 2

/-- A value that was not examined yet. -/
inductive Pending where
  | trace (value : String)
  /-- The value of the export option; missing when the option came last. -/
  | target (value : Option String)
  deriving DecidableEq

structure Parsing where
  trace : Option String
  events : Bool
  target : Option String
  quiet : Bool
  pending : Option Pending
  deriving DecidableEq

namespace Parsing

def start : Parsing := ⟨none, false, none, false, none⟩

def setTarget (p : Parsing) (value : String) : Except UsageError Parsing :=
  if p.target.isSome then .error .conflict
  else if value.isEmpty then .error .invalidValue
  else .ok { p with target := some value }

/-- Examine the value that waits for it. -/
def settle (p : Parsing) : Except UsageError Parsing :=
  match p.pending with
  | none => .ok p
  | some (.trace value) =>
    if value.isEmpty then .error .invalidValue
    else .ok { p with trace := some value, pending := none }
  | some (.target none) => .error .invalidValue
  | some (.target (some value)) => { p with pending := none }.setTarget value

/-- Whether a trace was given, examined or not. -/
def hasTrace (p : Parsing) : Bool :=
  p.trace.isSome || match p.pending with
    | some (.trace _) => true
    | _ => false

def setEvents (p : Parsing) : Except UsageError Parsing := do
  let p ← p.settle
  if p.events then throw .conflict
  return { p with events := true }

def setQuiet (p : Parsing) : Except UsageError Parsing := do
  let p ← p.settle
  if p.quiet then throw .conflict
  return { p with quiet := true }

def showHelp (p : Parsing) : Except UsageError Parsing := do
  let _ ← p.settle
  throw .help

/-- An option by its long name; `value` is what stood behind an equals sign. -/
def long (p : Parsing) (name : List Char) (value : Option (List Char)) :
    Except UsageError Parsing :=
  match String.ofList name, value with
  | "events", none => p.setEvents
  | "quiet", none => p.setQuiet
  | "help", none => p.showHelp
  | "events", some _ | "quiet", some _ | "help", some _ => .error .tooManyValues
  | "export", some value => do (← p.settle).setTarget (String.ofList value)
  | "export", none => do return { (← p.settle) with pending := some (.target none) }
  | _, _ => .error .unknownArgument

/-- Options by their letters. -/
def letters (p : Parsing) : List Char → Except UsageError Parsing
  | [] => .ok p
  | 'q' :: rest => do (← p.setQuiet).letters rest
  | 'h' :: _ => p.showHelp
  | _ => .error .unknownArgument

/-- An argument that is no option. -/
def plain (p : Parsing) (value : String) : Except UsageError Parsing :=
  if p.hasTrace then .error .unknownArgument
  else do return { (← p.settle) with pending := some (.trace value) }

/-- An argument that is no option, where the export option may still want its value. -/
def valueOrPlain (p : Parsing) (value : String) : Except UsageError Parsing :=
  match p.pending with
  | some (.target none) => .ok { p with pending := some (.target (some value)) }
  | _ => p.plain value

def argument (p : Parsing) (arg : String) : Except UsageError Parsing :=
  match arg.toList with
  | '-' :: '-' :: rest =>
    p.long (rest.takeWhile (· ≠ '=')) ((rest.dropWhile (· ≠ '=')).tail?)
  | '-' :: c :: rest => p.letters (c :: rest)
  | _ => p.valueOrPlain arg

/-- All arguments; behind `--` none is an option. -/
def arguments (p : Parsing) : List String → Except UsageError Parsing
  | [] => .ok p
  | "--" :: rest => rest.foldlM plain p
  | arg :: rest => do (← p.argument arg).arguments rest

end Parsing

/-- The options that the arguments of the program stand for. -/
def Options.parse (args : List String) : Except UsageError Options := do
  let p ← (← Parsing.start.arguments args).settle
  match p.trace with
  | some trace => return ⟨trace, p.events, p.target, p.quiet⟩
  | none => throw .missingArgument

end ThreadTrace.CommandLine
