import CodeAtlas.Module.Key
import CodeAtlas.Module.Stats

/-!
# Module trees

A module stands for a directory and holds the classes of its files. The nodes of a tree are kept
in the order of their keys, which puts each module right before its descendants; a node's id is
its position.
-/
namespace CodeAtlas

/-- Whether a directory has a file that makes it a package. -/
inductive ModuleKind where
  | package
  | directory
  deriving DecidableEq, Repr, Inhabited

namespace ModuleKind

def name : ModuleKind → String
  | package => "package"
  | directory => "directory"

def packageMarkers : List String :=
  ["__init__.py", "index.js", "index.jsx", "index.mjs", "index.cjs", "index.ts", "index.tsx"]

def isPackageMarker (fileName : String) : Bool := packageMarkers.contains fileName

end ModuleKind

/-- A scanned directory and the name that the paths of its modules start with. -/
structure ModuleRoot where
  path : Path
  label : String
  deriving DecidableEq, Repr

namespace ModuleRoot

def ofPath (p : Path) : ModuleRoot := ⟨p, (p.fileName?).getD "."⟩

/-- Keeps a path unless one with the same components is kept already; the last comes first. -/
def keepNew (kept : List Path) (p : Path) : List Path := if kept.any p.same then kept else p :: kept

/-- The roots at these paths, a path that comes again left out. -/
def ofPaths (ps : List Path) : List ModuleRoot := (ps.foldl keepNew []).reverse.map ofPath

/-- The one of two roots that has more components; the second if they have as many. -/
def deeper (best : Option ModuleRoot) (r : ModuleRoot) : Option ModuleRoot :=
  match best with
  | none => some r
  | some b => if b.path.components.length ≤ r.path.components.length then some r else some b

def innermost? (roots : List ModuleRoot) (dir : Path) : Option ModuleRoot :=
  (roots.filter fun r => dir.startsWith r.path).foldl deeper none

/--
The directory names, as spelled, of the module for a directory: the label of the innermost root
that contains it and the names below that root.
-/
def moduleNames? (roots : List ModuleRoot) (dir : Path) : Option (List String) :=
  match innermost? roots dir with
  | none => none
  | some r => (dir.below? r.path).map fun rest => r.label :: rest.filterMap Component.normal?

/-- The names of the topmost module: the label of the only root, or none at all. -/
def topNames : List ModuleRoot → List String
  | [r] => [r.label]
  | _ => []

end ModuleRoot

structure ModuleNode where
  id : Nat
  /-- Names from the top down to here, with slashes between them. -/
  path : String
  name : String
  key : ModuleKey
  kind : ModuleKind
  /-- The classes of the files right in this directory. -/
  classes : List ClassInfo
  children : List Nat
  parent : Option Nat
  /-- Counts over `classes`. -/
  own : Stats
  /-- Counts over the classes here and in all modules below. -/
  stats : Stats
  deriving DecidableEq, Repr, Inhabited

namespace ModuleNode

def hasContent (n : ModuleNode) : Bool := 0 < n.stats.classCount

def pathNames (n : ModuleNode) : List String :=
  ((Text.fields '/' n.path.toList).filter fun f => !f.isEmpty).map String.ofList

/-- The directory of the module's document below the output directory. -/
def relativeDir (n : ModuleNode) : Path := Path.ofNames n.pathNames

def displayName (n : ModuleNode) : String := if n.path.isEmpty then "." else n.path

end ModuleNode

structure ModuleTree where
  nodes : Array ModuleNode
  roots : List ModuleRoot
  deriving Repr

namespace ModuleTree

def size (t : ModuleTree) : Nat := t.nodes.size

def get? (t : ModuleTree) (id : Nat) : Option ModuleNode := t.nodes[id]?

/-- The node with this id, or an empty module if there is none. -/
def get (t : ModuleTree) (id : Nat) : ModuleNode := t.nodes.getD id default

def root (t : ModuleTree) : ModuleNode := t.get 0

def children (t : ModuleTree) (id : Nat) : List ModuleNode := (t.get id).children.map t.get

/-- Walks on from a stack of ids, visiting at most `fuel` nodes. -/
def walk (t : ModuleTree) : Nat → List Nat → List Nat
  | 0, _ => []
  | _ + 1, [] => []
  | fuel + 1, id :: stack => id :: walk t fuel ((t.get id).children ++ stack)

/-- The ids of a module and all modules below it, each before its children. -/
def subtree (t : ModuleTree) (id : Nat) : List Nat := t.walk t.size [id]

def modules (t : ModuleTree) : List ModuleNode := (t.subtree t.root.id).map t.get

def findKey? (t : ModuleTree) (keyText : String) : Option ModuleNode :=
  t.nodes.find? fun n => n.key.text = keyText

/-- Finds a module by its path; letter case and slashes at the ends do not matter. -/
def find? (t : ModuleTree) (path : String) : Option ModuleNode :=
  t.findKey? (Text.lower (String.ofList (Text.trimChar '/' path.toList)))

/-- The module that the directory of a class's file belongs to. -/
def moduleOf? (t : ModuleTree) (c : ClassInfo) : Option ModuleNode :=
  match c.file.parent? with
  | none => none
  | some dir =>
    match ModuleRoot.moduleNames? t.roots dir with
    | none => none
    | some names => t.findKey? (ModuleKey.ofNames names).text

def allClasses (t : ModuleTree) : List ClassInfo := t.nodes.toList.flatMap (·.classes)

end ModuleTree
end CodeAtlas
