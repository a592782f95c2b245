import CodeAtlas.CommandLine.Parser
import CodeAtlas.Run.Write
import CodeAtlas.Settings.Reader

/-!
# Commands

What a command line asks for, and what carrying it out prints.
-/
namespace CodeAtlas

/-- What a command prints, and its exit code. -/
structure Printout where
  output : String
  errors : String
  code : Nat
  deriving DecidableEq, Repr

inductive Command where
  /-- Surveys the roots and writes the documents. -/
  | generate (json allWarnings : Bool)
  /-- Shows the settings and writes nothing. -/
  | config (json : Bool)
  deriving DecidableEq, Repr

/-- A command with the settings it is given. -/
structure Request where
  command : Command
  overrides : Overrides
  settingsFile : Option Path
  logLevel : String
  deriving DecidableEq, Repr

def Given.overrides (g : Given) : Overrides where
  roots := (g.values .roots).map Path.mk
  pattern := g.value? .pattern
  languages := (g.values (.switch .language)).filterMap Language.ofName?
  kinds := (g.values (.switch .diagram)).filterMap DiagramKind.ofName?
  output := (g.value? .output).map Path.mk
  exclude := g.values (.switch .exclude)
  direction := (g.value? .direction).bind Direction.ofName?
  followLinks := g.has .followLinks

def usualLogLevel : String := "warn"

namespace Request

def ofInvocation (i : Invocation) : Request where
  command := match i.scope with
    | .generate => .generate (i.given.has .json) (i.given.has .showWarnings)
    | _ => .config (i.given.has .json)
  overrides := i.given.overrides
  settingsFile := (i.given.value? .settingsFile).map Path.mk
  logLevel := ((i.given.value? .logLevel).or (i.before.value? .logLevel)).getD usualLogLevel

def read (args : List String) : Except UsageStop Request :=
  (readCommandLine args).map ofInvocation

/-- The text that the command prints if it does not fail. -/
def output (r : Request) : Filing Failure String := do
  let t ← get
  let settings := (← Settings.locate t r.settingsFile).override r.overrides
  match r.command with
  | .generate json allWarnings =>
    let summary ← settings.run .default
    return if json then summary.toJson.pretty ++ "\n" else summary.text allWarnings
  | .config json =>
    let effective ← settings.effective .default t
    return if json then effective.toJson.pretty ++ "\n" else effective.toToml

/-- Carries out the command on a file tree. -/
def perform (r : Request) (t : FileTree) : Printout × FileTree :=
  match r.output.perform t with
  | (.ok text, t) => (⟨text, "", 0⟩, t)
  | (.error e, t) => (⟨"", "Error: " ++ e.message ++ "\n", 1⟩, t)

end Request
end CodeAtlas
