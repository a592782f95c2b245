import CodeAtlas.Diagram.Generate
import CodeAtlas.Document.Page

/-!
# Documents

Which documents a module tree gets, where each is placed below the output directory, and what
stands in them: the overview first, then a page for each module that has classes at or below it.
-/
namespace CodeAtlas

/-- The file names of the documents. -/
structure Layout where
  overviewFile : String
  moduleFile : String
  deriving DecidableEq, Repr

/-- A document to be made, about a module and all below it. -/
structure DocumentTarget where
  scope : Nat
  path : Path
  isOverview : Bool
  deriving DecidableEq, Repr

/-- Facts about the run that the overview shows. -/
structure OverviewInfo where
  title : String
  roots : List Path
  languages : List String
  filesDiscovered : Nat
  filesAnalyzed : Nat
  warnings : List Warning
  deriving Repr

structure Document where
  path : Path
  content : String
  deriving DecidableEq, Repr

/-- The modules that have documents, in tree order. -/
def ModuleTree.documented (t : ModuleTree) : List ModuleNode :=
  t.modules.filter ModuleNode.hasContent

namespace Layout

def targets (l : Layout) (t : ModuleTree) : List DocumentTarget :=
  ⟨t.root.id, ⟨l.overviewFile⟩, true⟩ ::
    t.documented.map fun n => ⟨n.id, n.documentPath l.moduleFile, false⟩

/-- The entry for a module in a document that stands in the given directory. -/
def entry (l : Layout) (dir : Path) (n : ModuleNode) : ModuleEntry where
  path := n.displayName
  link := relativeLink dir (n.documentPath l.moduleFile)
  classes := n.stats.classCount
  totalLoc := n.stats.totalLoc

end Layout

def Artifact.entry (a : Artifact) : DiagramEntry := ⟨a.kind.title, a.diagram⟩

def ClassInfo.entry (c : ClassInfo) : ClassEntry where
  name := c.name
  anchor := c.anchor
  file := c.file.fileName?.getD ""
  startLine := c.startLine
  endLine := c.endLine
  loc := c.loc
  methods := c.methodCount

namespace Layout

def modulePage (l : Layout) (t : ModuleTree) (target : DocumentTarget)
    (artifacts : List Artifact) : ModulePage :=
  let n := t.get target.scope
  let dir := target.path.parent?.getD ⟨""⟩
  { title := if n.name.isEmpty then n.displayName else n.name
    path := n.displayName
    kind := n.kind.name
    stats := n.stats
    diagrams := artifacts.map Artifact.entry
    children := ((t.children n.id).filter ModuleNode.hasContent).map (l.entry dir)
    classes := n.classes.map ClassInfo.entry }

def overviewPage (l : Layout) (t : ModuleTree) (target : DocumentTarget)
    (artifacts : List Artifact) (info : OverviewInfo) : OverviewPage :=
  let dir := target.path.parent?.getD ⟨""⟩
  { title := info.title
    roots := info.roots.map (·.text)
    languages := info.languages
    filesDiscovered := info.filesDiscovered
    filesAnalyzed := info.filesAnalyzed
    stats := t.root.stats
    diagrams := artifacts.map Artifact.entry
    modules := t.documented.map (l.entry dir)
    warnings := info.warnings.map Warning.display }

/-- The document for a target with the diagrams made for it. -/
def render (l : Layout) (t : ModuleTree) (target : DocumentTarget) (artifacts : List Artifact)
    (info : OverviewInfo) : Document where
  path := target.path
  content :=
    if target.isOverview then (l.overviewPage t target artifacts info).render
    else (l.modulePage t target artifacts).render

/-- All documents of a tree, with diagrams of the given kinds. -/
def documents (l : Layout) (t : ModuleTree) (kinds : List DiagramKind) (direction : Direction)
    (info : OverviewInfo) : List Document :=
  let model := (DiagramModel.build t l.moduleFile .empty).1
  (l.targets t).map fun target =>
    l.render t target (kinds.map fun k => k.generate model target.scope direction target.path) info

end Layout
end CodeAtlas
