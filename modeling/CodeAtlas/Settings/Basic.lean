import CodeAtlas.Diagram.Kind
import CodeAtlas.Language

/-!
# Settings

What a run is told: which files to look at, which diagrams to draw and where documents go. Each
part has defaults, and values given for a single run go before those in a settings file.
-/
namespace CodeAtlas

/-- Which files are looked at. -/
structure DiscoverySettings where
  roots : List Path := [⟨"."⟩]
  /-- A glob for the paths of files, seen from their root. -/
  pattern : String := "**/*"
  exclude : List String :=
    ["**/node_modules", "**/.git", "**/__pycache__", "**/venv", "**/.venv", "**/dist", "**/build"]
  /-- All languages that are found if unset. -/
  languages : Option (List Language) := none
  followLinks : Bool := false
  deriving DecidableEq, Repr

structure DiagramSettings where
  /-- All kinds if unset. -/
  kinds : Option (List DiagramKind) := none
  direction : Direction := .down
  deriving DecidableEq, Repr

structure OutputSettings where
  directory : Path := ⟨"./designmap-docs"⟩
  overviewFile : String := "overview.md"
  moduleFile : String := "module.md"
  deriving DecidableEq, Repr

structure Settings where
  discovery : DiscoverySettings := {}
  diagrams : DiagramSettings := {}
  output : OutputSettings := {}
  deriving DecidableEq, Repr

/-- Values for a single run. -/
structure Overrides where
  roots : List Path := []
  pattern : Option String := none
  languages : List Language := []
  kinds : List DiagramKind := []
  output : Option Path := none
  exclude : List String := []
  direction : Option Direction := none
  followLinks : Bool := false
  deriving DecidableEq, Repr

/-- The list, if there is anything in it. -/
def nonempty? {α : Type} (xs : List α) : Option (List α) := if xs.isEmpty then none else some xs

namespace Settings

/-- Given values replace those of the settings; excluded globs are added to them. -/
def override (s : Settings) (o : Overrides) : Settings where
  discovery :=
    { roots := (nonempty? o.roots).getD s.discovery.roots
      pattern := o.pattern.getD s.discovery.pattern
      exclude := s.discovery.exclude ++ o.exclude
      languages := (nonempty? o.languages).or s.discovery.languages
      followLinks := s.discovery.followLinks || o.followLinks }
  diagrams :=
    { kinds := (nonempty? o.kinds).or s.diagrams.kinds
      direction := o.direction.getD s.diagrams.direction }
  output := { s.output with directory := o.output.getD s.output.directory }

end Settings
end CodeAtlas
