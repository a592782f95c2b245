import CodeAtlas.Module.Stats
import CodeAtlas.Diagram.Artifact

/-!
# Pages

The Markdown pages: one for each module and an overview. A page is a record of what it shows, and
`render` writes it.
-/
namespace CodeAtlas

/-- A diagram on a page. -/
structure DiagramEntry where
  title : String
  body : String
  deriving DecidableEq, Repr

/-- A link to the page of a module, with that module's counts. -/
structure ModuleEntry where
  path : String
  link : String
  classes : Nat
  totalLoc : Nat
  deriving DecidableEq, Repr

structure ClassEntry where
  name : String
  anchor : String
  file : String
  startLine : Nat
  endLine : Nat
  loc : Nat
  methods : Nat
  deriving DecidableEq, Repr

structure ModulePage where
  title : String
  path : String
  kind : String
  stats : Stats
  diagrams : List DiagramEntry
  children : List ModuleEntry
  classes : List ClassEntry
  deriving DecidableEq, Repr

structure OverviewPage where
  title : String
  roots : List String
  languages : List String
  filesDiscovered : Nat
  filesAnalyzed : Nat
  stats : Stats
  diagrams : List DiagramEntry
  modules : List ModuleEntry
  warnings : List String
  deriving DecidableEq, Repr

namespace Page

/-- One row of a table. -/
def row (cells : List String) : String := "| " ++ " | ".intercalate cells ++ " |\n"

def code (s : String) : String := "\x60" ++ s ++ "\x60"

def fence : String := "\x60\x60\x60"

def statsCells (s : Stats) : List String :=
  [toString s.classCount, toString s.totalLoc, s.averageLoc, toString s.methodCount]

def statsHeads : List String := ["Classes", "Total lines", "Avg lines/class", "Methods"]

/-- The line under the heads of a table whose columns are all set to the right. -/
def rightRule (columns : Nat) : String := "|" ++ String.join (List.replicate columns "---:|") ++ "\n"

/-- A section with its heading, left out when it would be empty. -/
def optionalSection {α : Type} (entries : List α) (before : String) (entry : α → String) :
    String :=
  if entries.isEmpty then "" else "\n" ++ before ++ String.join (entries.map entry)

def diagramSection (d : DiagramEntry) : String :=
  "\n## " ++ d.title ++ "\n\n" ++ fence ++ "mermaid\n" ++ d.body ++ "\n" ++ fence ++ "\n"

def submoduleLine (m : ModuleEntry) : String :=
  "- [" ++ m.path ++ "](" ++ m.link ++ "): " ++ counted m.classes "class" "classes" ++ ", " ++
    counted m.totalLoc "line" "lines" ++ "\n"

def anchorLine (anchor : String) : String := "<a id=\"" ++ anchor ++ "\"></a>\n"

def classSection (c : ClassEntry) : String :=
  "\n" ++ anchorLine c.anchor ++ "### " ++ c.name ++ "\n\n" ++
    "- File: " ++ code c.file ++ " (lines " ++ toString c.startLine ++ "-" ++
      toString c.endLine ++ ")\n" ++
    "- Lines of code: " ++ toString c.loc ++ "\n" ++
    "- Methods: " ++ toString c.methods ++ "\n"

def moduleRow (m : ModuleEntry) : String :=
  row ["[" ++ m.path ++ "](" ++ m.link ++ ")", toString m.classes, toString m.totalLoc]

end Page

open Page in
def ModulePage.render (p : ModulePage) : String :=
  "# " ++ p.title ++ "\n\n" ++ Text.capitalize p.kind ++ " " ++ code p.path ++ "\n\n" ++
    row statsHeads ++ rightRule 4 ++ row (statsCells p.stats) ++
    String.join (p.diagrams.map diagramSection) ++
    optionalSection p.children "## Submodules\n\n" submoduleLine ++
    optionalSection p.classes "## Classes\n" classSection ++ "\n"

open Page in
def OverviewPage.render (p : OverviewPage) : String :=
  "# " ++ p.title ++ "\n\n" ++ "Generated from " ++ counted p.roots.length "root" "roots" ++
    ": " ++ ", ".intercalate (p.roots.map code) ++ "\n\n" ++
    row (["Files discovered", "Files analyzed"] ++ statsHeads) ++ rightRule 6 ++
    row ([toString p.filesDiscovered, toString p.filesAnalyzed] ++ statsCells p.stats) ++
    (if p.languages.isEmpty then ""
      else "\nLanguages: " ++ ", ".intercalate p.languages ++ "\n") ++
    String.join (p.diagrams.map diagramSection) ++
    optionalSection p.modules
      ("## Modules\n\n" ++ row ["Module", "Classes", "Total lines"] ++ "|---|---:|---:|\n")
      moduleRow ++
    optionalSection p.warnings "## Warnings\n\n" (fun w => "- " ++ w ++ "\n") ++ "\n"

end CodeAtlas
