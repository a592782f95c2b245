import CodeAtlas.CommandLine.Switch
import CodeAtlas.Text.Fields

/-!
# Reading a command line

Arguments are taken one by one. Values that are still being collected are checked when the next
switch is met or the arguments end, so of two faults that of the earlier switch comes first, unless
the later one is an unknown argument.
-/
namespace CodeAtlas

/-- What is given on a command line, in order; a switch without a value has an empty one. -/
abbrev Given := List (Target × String)

namespace Given

def values (g : Given) (t : Target) : List String := (g.filter fun e => e.1 = t).map (·.2)

def value? (g : Given) (s : Switch) : Option String := (g.values (.switch s)).head?

def has (g : Given) (s : Switch) : Bool := (g.value? s).isSome

end Given

/-- The reading of arguments so far. -/
structure ArgumentState where
  given : Given
  /-- What values are being collected for, with these values. -/
  pending : Option (Target × List String)
  /-- The pending switch still lacks its value. -/
  awaiting : Bool
  /-- After `--` there are no more switches. -/
  onlyValues : Bool

namespace ArgumentState

def start : ArgumentState := ⟨[], none, false, false⟩

/-- Takes values that are complete. -/
def accept (s : ArgumentState) (t : Target) (values : List String) :
    Except UsageStop ArgumentState := do
  match t with
  | .roots => pure ()
  | .switch switch =>
    if switch.takesValue && values.isEmpty then throw .missingValue
    if !switch.isRepeatable && s.given.has switch then throw .repeated
  for v in values do
    t.checkValue v
  return { s with given := s.given ++ values.map fun v => (t, v) }

/-- Takes the values that were being collected. -/
def settle (s : ArgumentState) : Except UsageStop ArgumentState :=
  match s.pending with
  | none => .ok s
  | some (t, values) => { s with pending := none, awaiting := false }.accept t values

/-- Takes a switch that has no value. -/
def flag (s : ArgumentState) (switch : Switch) : Except UsageStop ArgumentState := do
  let s ← s.settle
  match switch with
  | .help => throw .help
  | .version => throw .version
  | _ => s.accept (.switch switch) [""]

/-- Takes a switch with the value attached to it, or waits for its value. -/
def valued (s : ArgumentState) (switch : Switch) (attached : Option String) :
    Except UsageStop ArgumentState := do
  let s ← s.settle
  match attached with
  | some v => s.accept (.switch switch) [v]
  | none => return { s with pending := some (.switch switch, []), awaiting := true }

/-- Takes an argument after two hyphens. -/
def long (s : ArgumentState) (scope : CommandScope) (body : List Char) :
    Except UsageStop ArgumentState :=
  let name := String.ofList (body.takeWhile (· ≠ '='))
  let attached := match body.dropWhile (· ≠ '=') with
    | [] => none
    | _ :: v => some (String.ofList v)
  match Switch.ofLong? scope name with
  | none => .error .unknownSwitch
  | some switch =>
    if switch.takesValue then s.valued switch attached
    else if attached.isSome then .error .needlessValue
    else s.flag switch

/-- Takes switches of one letter after a hyphen; what follows one with a value is its value. -/
def short (s : ArgumentState) (scope : CommandScope) : List Char → Except UsageStop ArgumentState
  | [] => .ok s
  | c :: cs =>
    match Switch.ofShort? scope c with
    | none => .error .unknownSwitch
    | some switch =>
      if switch.takesValue then
        s.valued switch (match cs with
          | [] => none
          | '=' :: v => some (String.ofList v)
          | v => some (String.ofList v))
      else do short (← s.flag switch) scope cs

/-- Takes a root. -/
def root (s : ArgumentState) (arg : String) : Except UsageStop ArgumentState :=
  match s.pending with
  | some (.roots, values) => .ok { s with pending := some (.roots, values ++ [arg]) }
  | _ => do return { ← s.settle with pending := some (.roots, [arg]) }

/-- Takes an argument that is no switch. -/
def plain (s : ArgumentState) (arg : String) : Except UsageStop ArgumentState :=
  match s.awaiting, s.pending with
  | true, some (t, values) =>
    if s.onlyValues then s.root arg
    else .ok { s with pending := some (t, values ++ [arg]), awaiting := false }
  | _, _ => s.root arg

/-- Takes one argument of a command. -/
def argument (s : ArgumentState) (scope : CommandScope) (arg : String) :
    Except UsageStop ArgumentState :=
  if s.onlyValues then s.plain arg
  else
    match arg.toList with
    | ['-', '-'] => .ok { s with onlyValues := true }
    | '-' :: '-' :: body => s.long scope body
    | '-' :: c :: cs => s.short scope (c :: cs)
    | _ => s.plain arg

end ArgumentState

/-- All that is given to a command. -/
def readArguments (scope : CommandScope) (args : List String) : Except UsageStop Given := do
  let s ← args.foldlM (fun s arg => s.argument scope arg) ArgumentState.start
  return (← s.settle).given

def commandOf? (name : String) : Option CommandScope :=
  match name with
  | "generate" => some .generate
  | "config" => some .config
  | _ => none

def isCommandName (name : String) : Bool := name = "help" || (commandOf? name).isSome

/-- What asking for help on the named commands comes to. -/
def helpOn (names : List String) : UsageStop :=
  match names with
  | [] => .help
  | [name] => if isCommandName name then .help else .unknownCommand
  | _ => .unknownCommand

/-- A command with what is given to it and what is given before it. -/
structure Invocation where
  scope : CommandScope
  given : Given
  before : Given

/-- Whether an argument is a switch or ends the switches. -/
def isSwitchLike (arg : String) : Bool :=
  match arg.toList with
  | '-' :: _ :: _ => true
  | _ => false

/-- Reads the arguments up to the command, and the command with its own. -/
def readFrom (s : ArgumentState) : List String → Except UsageStop Invocation
  | [] => do
    let s ← s.settle
    throw (if s.given.isEmpty then .helpForNothing else .missingCommand)
  | arg :: rest =>
    if s.onlyValues then .error (if isCommandName arg then .unknownSwitch else .unknownCommand)
    else if s.awaiting || isSwitchLike arg then do readFrom (← s.argument .outside arg) rest
    else
      match commandOf? arg with
      | some scope => do
        let given ← readArguments scope rest
        return ⟨scope, given, (← s.settle).given⟩
      | none => .error (if arg = "help" then helpOn rest else .unknownCommand)

def readCommandLine (args : List String) : Except UsageStop Invocation :=
  readFrom .start args

end CodeAtlas
