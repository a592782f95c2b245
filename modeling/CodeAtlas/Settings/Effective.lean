import CodeAtlas.Json.Value
import CodeAtlas.Settings.Basic
import CodeAtlas.Toml.Quoted

/-!
# Effective settings

The settings a run really has, nothing left open, and how they are shown.
-/
namespace CodeAtlas

structure EffectiveSettings where
  roots : List Path
  pattern : String
  exclude : List String
  languages : List Language
  kinds : List DiagramKind
  direction : Direction
  outputDirectory : Path
  overviewFile : String
  moduleFile : String
  followLinks : Bool
  deriving DecidableEq, Repr

/-- Fills in the languages from those of the files that were found, and the kinds. -/
def Settings.resolve (s : Settings) (found : List Language) : EffectiveSettings where
  roots := s.discovery.roots
  pattern := s.discovery.pattern
  exclude := s.discovery.exclude
  languages := Language.distinct (s.discovery.languages.getD found)
  kinds := DiagramKind.distinct (s.diagrams.kinds.getD DiagramKind.all)
  direction := s.diagrams.direction
  outputDirectory := s.output.directory
  overviewFile := s.output.overviewFile
  moduleFile := s.output.moduleFile
  followLinks := s.discovery.followLinks

namespace EffectiveSettings

/-- The value of a setting as it is shown. -/
inductive Shown where
  | text (s : String)
  | texts (ss : List String)
  | flag (b : Bool)

def Shown.toToml : Shown → String
  | text s => Toml.quote s
  | texts ss => Toml.quoteList ss
  | flag b => if b then "true" else "false"

def Shown.toJson : Shown → JsonValue
  | text s => .text s
  | texts ss => .texts ss
  | flag b => .flag b

/-- The settings with their names, in the order in which they are shown. -/
def shown (e : EffectiveSettings) : List (String × Shown) := [
  ("roots", .texts (e.roots.map (·.text))),
  ("pattern", .text e.pattern),
  ("exclude", .texts e.exclude),
  ("languages", .texts (e.languages.map Language.name)),
  ("diagram_kinds", .texts (e.kinds.map DiagramKind.name)),
  ("direction", .text e.direction.name),
  ("output_directory", .text e.outputDirectory.text),
  ("overview_file", .text e.overviewFile),
  ("module_file", .text e.moduleFile),
  ("follow_links", .flag e.followLinks)]

def toToml (e : EffectiveSettings) : String :=
  String.join (e.shown.map fun s => s.1 ++ " = " ++ s.2.toToml ++ "\n")

def toJson (e : EffectiveSettings) : JsonValue :=
  .record (e.shown.map fun s => (s.1, s.2.toJson))

end EffectiveSettings
end CodeAtlas
