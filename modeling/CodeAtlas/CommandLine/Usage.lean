import CodeAtlas.CommandLine.Command

/-!
# Usage

What is shown when a command line is not carried out.
-/
namespace CodeAtlas

/-- How the switch is written. -/
def Switch.synopsis (s : Switch) : String :=
  (match s.shortName? with
    | some c => "-" ++ String.singleton c ++ ", "
    | none => "    ") ++
    "--" ++ s.longName ++ if s.takesValue then " VALUE" else ""

def Switch.manual (scope : CommandScope) : String :=
  String.join ((Switch.all.filter fun s => s.isKnownIn scope).map fun s =>
    "  " ++ s.synopsis ++ "\n")

def usage : String :=
  "Generate architecture diagrams from multi-language source trees\n\n" ++
    "Usage: designmap generate [SWITCH]... [ROOT]...\n" ++ Switch.manual .generate ++
    "\nUsage: designmap config [SWITCH]... [ROOT]...\n" ++ Switch.manual .config

def UsageStop.message : UsageStop → String
  | help | helpForNothing => usage
  | version => "designmap 0.1.0\n"
  | unknownCommand => "Error: unknown command\n"
  | missingCommand => "Error: a command is missing\n"
  | unknownSwitch => "Error: unknown switch\n"
  | missingValue => "Error: a value is missing\n"
  | unknownValue => "Error: unknown value\n"
  | repeated => "Error: a switch is given twice\n"
  | needlessValue => "Error: a switch takes no value\n"

/-- Help and the version are output when they are asked for. -/
def UsageStop.printout (s : UsageStop) : Printout :=
  if s.code = 0 then ⟨s.message, "", 0⟩ else ⟨"", s.message, s.code⟩

end CodeAtlas
