import CodeAtlas.Discovery
import CodeAtlas.Document.Layout
import CodeAtlas.Module.Aggregation
import CodeAtlas.Registry
import CodeAtlas.Settings.Effective

/-!
# Surveys

A survey is all that settings let be known about a file tree: the files found, what was read and
found in them, and the module tree over it. It changes nothing.
-/
namespace CodeAtlas

/-- What came of one file; there is no source if it could not be read. -/
structure FileReport where
  source : Option SourceFile
  analysis : Analysis
  deriving DecidableEq, Repr

def Registry.report (r : Registry) (t : FileTree) (f : FoundFile) : FileReport :=
  match t.read f.path with
  | .ok text =>
    let source : SourceFile := ⟨f.path, f.language, text⟩
    ⟨some source, r.analyze source⟩
  | .error e => ⟨none, ⟨[], [.read f.path e.message]⟩⟩

/-- Reads a source file whose language is told by its extension. -/
def FileTree.readSource (t : FileTree) (p : Path) : Except Failure SourceFile :=
  match Language.ofPath? p with
  | none => .error (.file (.noAnalyzer p))
  | some language =>
    match t.read p with
    | .ok text => .ok ⟨p, language, text⟩
    | .error e => .error (.file e)

structure Survey where
  /-- Where the roots really are, each once. -/
  roots : List Path
  discovery : Discovery
  settings : EffectiveSettings
  reports : List FileReport
  aggregation : Aggregation
  deriving Repr

namespace Survey

def sources (s : Survey) : List SourceFile := s.reports.filterMap (·.source)

def classes (s : Survey) : List ClassInfo := s.reports.flatMap (·.analysis.classes)

/-- The warnings of the walk, then those of each file, then those of the module tree. -/
def warnings (s : Survey) : List Warning :=
  s.discovery.warnings ++ s.reports.flatMap (·.analysis.warnings) ++ s.aggregation.warnings

def tree (s : Survey) : ModuleTree := s.aggregation.tree

def title (s : Survey) : String :=
  if s.tree.root.name.isEmpty then "Architecture overview"
  else s.tree.root.name ++ " architecture"

def info (s : Survey) : OverviewInfo where
  title := s.title
  roots := s.roots
  languages := s.settings.languages.map Language.name
  filesDiscovered := s.discovery.files.length
  filesAnalyzed := s.sources.length
  warnings := s.warnings

def layout (s : Survey) : Layout := ⟨s.settings.overviewFile, s.settings.moduleFile⟩

def documents (s : Survey) : List Document :=
  s.layout.documents s.tree s.settings.kinds s.settings.direction s.info

end Survey

/-- Where the roots really are, each once, in the order in which they are first named. -/
def FileTree.rootPaths (t : FileTree) (roots : List Path) : Except Failure (List Path) := do
  return (← roots.mapM t.rootAt).eraseDups.map Location.path

/-- The files that settings choose, of the languages that a registry can read. -/
def Settings.discover (s : Settings) (r : Registry) (t : FileTree) (roots : List Path) :
    Except Failure Discovery := do
  let f ← FileFilter.ofGlobs s.discovery.pattern s.discovery.exclude
  CodeAtlas.discover t
    { f with
      languages := s.discovery.languages
      extensions := some r.extensionMap
      followLinks := s.discovery.followLinks } roots

/-- The settings that a run would have. -/
def Settings.effective (s : Settings) (r : Registry) (t : FileTree) :
    Except Failure EffectiveSettings := do
  s.check
  let roots ← t.rootPaths s.discovery.roots
  return s.resolve (← s.discover r t roots).languages

def Settings.survey (s : Settings) (r : Registry) (t : FileTree) : Except Failure Survey := do
  s.check
  let roots ← t.rootPaths s.discovery.roots
  let discovery ← s.discover r t roots
  let reports := discovery.files.map (r.report t)
  return {
    roots := roots
    discovery := discovery
    settings := s.resolve discovery.languages
    reports := reports
    aggregation := aggregate roots (reports.filterMap (·.source))
      (reports.flatMap (·.analysis.classes)) }

end CodeAtlas
