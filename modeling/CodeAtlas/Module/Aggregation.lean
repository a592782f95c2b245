import CodeAtlas.Module.Slot

/-!
# Aggregation

Groups classes by the directory of their file into a module tree and adds up the counts.
Directories that differ in letter case only fall into one module, which is a warning. Slots become
nodes in the order of their keys, so each node comes after its parent; the counts are then passed
up from the last node to the first.
-/
namespace CodeAtlas

/-- The order of the classes in a module: by file, line and name, then by what is left. -/
def cmpClasses (a b : List Component × ClassInfo) : Ordering :=
  (Path.cmpComponents a.1 b.1).then <|
    (compare a.2.startLine b.2.startLine).then <|
    (compare a.2.name b.2.name).then <|
    (compare a.2.endLine b.2.endLine).then <|
    (compare a.2.loc b.2.loc).then (compare a.2.methodCount b.2.methodCount)

def sortClasses (cs : List ClassInfo) : List ClassInfo :=
  ((cs.map fun c => (c.file.components, c)).mergeSort fun a b => (cmpClasses a b).isLE).map (·.2)

/-- The position of the node one name up, unless the key is no longer than that of the top. -/
def parentOf? (topLength : Nat) (nodes : List ModuleNode) (key : ModuleKey) : Option Nat :=
  if key.length ≤ topLength then none else nodes.findIdx? fun n => n.key = key.dropLast

/-- The path of a module below its parent, or of one that has none. -/
def pathOf (nodes : List ModuleNode) (parent : Option Nat) (s : Slot) : String :=
  match parent.bind (nodes[·]?) with
  | none => "/".intercalate s.names
  | some p => if p.path.isEmpty then s.name else p.path ++ "/" ++ s.name

def addChild (id : Nat) (n : ModuleNode) : ModuleNode := { n with children := n.children ++ [id] }

/-- The node of a slot that comes after the given nodes, with the counts of its own classes. -/
def nodeOf (topLength : Nat) (nodes : List ModuleNode) (s : Slot) : ModuleNode :=
  let parent := parentOf? topLength nodes s.key
  let classes := sortClasses s.classes
  { id := nodes.length
    path := pathOf nodes parent s
    name := s.name
    key := s.key
    kind := if s.isPackage then .package else .directory
    classes := classes
    children := []
    parent := parent
    own := Stats.ofClasses classes
    stats := Stats.ofClasses classes }

/-- Puts the node of a slot after the others and among the children of its parent. -/
def addNode (topLength : Nat) (nodes : List ModuleNode) (s : Slot) : List ModuleNode :=
  let n := nodeOf topLength nodes s
  match n.parent with
  | none => nodes ++ [n]
  | some p => nodes.modify p (addChild n.id) ++ [n]

def nodesOf (topLength : Nat) (slots : Slots) : List ModuleNode :=
  slots.foldl (addNode topLength) []

def addStats (s : Stats) (n : ModuleNode) : ModuleNode := { n with stats := n.stats.add s }

def passUp (i : Nat) (nodes : List ModuleNode) : List ModuleNode :=
  match nodes[i]? with
  | none => nodes
  | some n =>
    match n.parent with
    | none => nodes
    | some p => nodes.modify p (addStats n.stats)

def rollUp (nodes : List ModuleNode) : List ModuleNode :=
  (List.range nodes.length).foldr passUp nodes

structure Aggregation where
  tree : ModuleTree
  warnings : List Warning
  deriving Repr

/-- The module tree over the given roots, and a warning for each merge of directories. -/
def aggregate (rootPaths : List Path) (files : List SourceFile) (classes : List ClassInfo) :
    Aggregation :=
  let roots := ModuleRoot.ofPaths rootPaths
  let slots := slotsOf roots files classes
  { tree := ⟨(rollUp (nodesOf (ModuleRoot.topNames roots).length slots)).toArray, roots⟩
    warnings := slots.filterMap Slot.conflict? }

end CodeAtlas
