import CodeAtlas.Settings.Basic

/-!
# Switches of the command line

The commands, the switches that each of them knows, and the values that a switch takes.
-/
namespace CodeAtlas

/-- Where an argument stands: before any command, or after one. -/
inductive CommandScope where
  | outside
  | generate
  | config
  deriving DecidableEq, Repr

inductive Switch where
  | help
  | version
  | logLevel
  | pattern
  | language
  | diagram
  | output
  | exclude
  | direction
  | followLinks
  | settingsFile
  | json
  | showWarnings
  | verbose
  deriving DecidableEq, Repr

namespace Switch

def all : List Switch := [
  help, version, logLevel, pattern, language, diagram, output, exclude, direction, followLinks,
  settingsFile, json, showWarnings, verbose]

def longName : Switch → String
  | help => "help"
  | version => "version"
  | logLevel => "log-level"
  | pattern => "pattern"
  | language => "language"
  | diagram => "diagram"
  | output => "output"
  | exclude => "exclude"
  | direction => "direction"
  | followLinks => "follow-links"
  | settingsFile => "config"
  | json => "json"
  | showWarnings => "show-warnings"
  | verbose => "verbose"

def shortName? : Switch → Option Char
  | help => some 'h'
  | version => some 'V'
  | pattern => some 'p'
  | language => some 'l'
  | diagram => some 'd'
  | output => some 'o'
  | settingsFile => some 'c'
  | verbose => some 'v'
  | _ => none

def takesValue : Switch → Bool
  | help | version | followLinks | json | showWarnings | verbose => false
  | _ => true

/-- Whether the switch may be given more than once. -/
def isRepeatable : Switch → Bool
  | language | diagram | exclude => true
  | _ => false

def isKnownIn (s : Switch) : CommandScope → Bool
  | .outside => s = help || s = version || s = logLevel
  | .generate => s ≠ version
  | .config => s ≠ version && s ≠ showWarnings && s ≠ verbose

def ofLong? (scope : CommandScope) (name : String) : Option Switch :=
  all.find? fun s => s.isKnownIn scope && s.longName = name

def ofShort? (scope : CommandScope) (c : Char) : Option Switch :=
  all.find? fun s => s.isKnownIn scope && s.shortName? = some c

end Switch

/-- Why a command line is not carried out. -/
inductive UsageStop where
  | help
  /-- Help is shown because nothing was asked for. -/
  | helpForNothing
  | version
  | unknownCommand
  | missingCommand
  | unknownSwitch
  /-- A value is missing or empty. -/
  | missingValue
  | unknownValue
  /-- A switch is given twice. -/
  | repeated
  /-- A switch that takes no value has one. -/
  | needlessValue
  deriving DecidableEq, Repr

/-- The exit code: help and version are no errors when they are asked for. -/
def UsageStop.code : UsageStop → Nat
  | help | version => 0
  | _ => 2

/-- What values are given for: the roots, or a switch. -/
inductive Target where
  | roots
  | switch (s : Switch)
  deriving DecidableEq, Repr

def checkKnown {α : Type} (found : Option α) : Except UsageStop Unit :=
  if found.isSome then .ok () else .error .unknownValue

/-- Whether a value can be given; paths are not empty and names are known. -/
def Target.checkValue (t : Target) (value : String) : Except UsageStop Unit :=
  match t with
  | .roots | .switch .output | .switch .settingsFile =>
    if value.isEmpty then .error .missingValue else .ok ()
  | .switch .language => checkKnown (Language.ofName? value)
  | .switch .diagram => checkKnown (DiagramKind.ofName? value)
  | .switch .direction => checkKnown (Direction.ofName? value)
  | _ => .ok ()

end CodeAtlas
