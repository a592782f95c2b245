import CodeAtlas.Diagram.Ids
import CodeAtlas.Module.Tree

/-!
# Diagram models

The nodes of a module tree's diagrams, with what each contains: modules contain their child
modules and their classes. All modules come first, so that a class more never moves a module's
id; then the classes, module by module.
-/
namespace CodeAtlas

inductive NodeInfo where
  /-- A module of the tree; a module without classes has no document. -/
  | ofModule (id : Nat) (path : String) (stats : Stats) (doc : Option Path)
  | ofClass (name : String) (loc methodCount : Nat) (anchor : String) (doc : Path)
  deriving DecidableEq, Repr

structure DiagramNode where
  id : String
  info : NodeInfo
  deriving DecidableEq, Repr

inductive Containment where
  | childModule
  | ownClass
  deriving DecidableEq, Repr

/-- The node at `target` is contained in the one at `source`. -/
structure ContainmentEdge where
  source : Nat
  target : Nat
  kind : Containment
  deriving DecidableEq, Repr

/-- Nodes, known by their position, and the edges between them in the order of their targets. -/
structure DiagramModel where
  nodes : Array DiagramNode
  edges : List ContainmentEdge
  /-- For each module of the tree, the position of its node. -/
  positions : List (Nat × Nat)
  deriving Repr

/-- Where the document of a module is, seen from the output directory. -/
def ModuleNode.documentPath (n : ModuleNode) (moduleFile : String) : Path :=
  n.relativeDir.join ⟨moduleFile⟩

/--
Numbers the files of a list of classes: a class of another file than the one before it begins the
next number.
-/
def numberFilesFrom (current : Nat) (file : Path) : List ClassInfo → List (Nat × ClassInfo)
  | [] => []
  | c :: cs =>
    let n := if file.same c.file then current else current + 1
    (n, c) :: numberFilesFrom n c.file cs

def numberFiles : List ClassInfo → List (Nat × ClassInfo)
  | [] => []
  | c :: cs => (0, c) :: numberFilesFrom 0 c.file cs

namespace DiagramModel

def empty : DiagramModel := ⟨#[], [], []⟩

/-- A model under construction with the ids that are left. -/
abbrev Draft := DiagramModel × IdSupply

def addModule (moduleFile : String) (draft : Draft) (n : ModuleNode) : Draft :=
  let (m, ids) := draft
  let (ordinal, ids) := ids.takeModule
  let doc := if n.hasContent then some (n.documentPath moduleFile) else none
  let position := m.nodes.size
  let edges := match n.parent.bind fun above => m.positions.lookup above with
    | some above => [⟨above, position, .childModule⟩]
    | none => []
  ({ nodes := m.nodes.push
      ⟨IdSupply.moduleText ordinal, .ofModule n.id n.displayName n.stats doc⟩
     edges := m.edges ++ edges
     positions := m.positions ++ [(n.id, position)] }, ids)

def addClass (module ordinal : Nat) (doc : Path) (draft : Draft) (c : Nat × ClassInfo) : Draft :=
  let (m, ids) := draft
  let (id, ids) := ids.takeClass ordinal c.1
  ({ m with
      nodes := m.nodes.push
        ⟨id, .ofClass c.2.name c.2.loc c.2.methodCount c.2.anchor doc⟩
      edges := m.edges ++ [⟨module, m.nodes.size, .ownClass⟩] }, ids)

/-- Adds the classes of a module whose node is at `position` and has the number `ordinal`. -/
def addClasses (moduleFile : String) (draft : Draft) (n : ModuleNode × Nat × Nat) : Draft :=
  let (node, position, ordinal) := n
  (numberFiles node.classes).foldl (addClass position ordinal (node.documentPath moduleFile)) draft

/-- The model of a tree whose modules have their documents in files of the given name. -/
def build (tree : ModuleTree) (moduleFile : String) (ids : IdSupply) : Draft :=
  let modules := tree.modules
  let numbered := modules.zipIdx.map fun (n, i) => (n, i, ids.nextModule + i)
  numbered.foldl (addClasses moduleFile) (modules.foldl (addModule moduleFile) (empty, ids))

def node? (m : DiagramModel) (position : Nat) : Option DiagramNode := m.nodes[position]?

/-- The position of the node for a module of the tree. -/
def position? (m : DiagramModel) (module : Nat) : Option Nat := m.positions.lookup module

/-- Positions of what a node contains in this way, in order. -/
def contained (m : DiagramModel) (position : Nat) (kind : Containment) : List Nat :=
  (m.edges.filter fun e => e.source = position && e.kind = kind).map (·.target)

/-- Whether a node stands for a class or for a module with classes at or below it. -/
def hasContent (m : DiagramModel) (position : Nat) : Bool :=
  match m.node? position with
  | some ⟨_, .ofModule _ _ stats _⟩ => 0 < stats.classCount
  | some ⟨_, .ofClass ..⟩ => true
  | none => false

/-- The child modules that a diagram shows. -/
def shownChildren (m : DiagramModel) (position : Nat) : List Nat :=
  (m.contained position .childModule).filter m.hasContent

end DiagramModel
end CodeAtlas
