import CodeAtlas.Diagram.Artifact

/-!
# Component trees

A node for each module of the scope that has classes at or below it, and an edge from each module
to each child.
-/
namespace CodeAtlas.ComponentTree

/-- Positions of the shown modules from a stack on, each before its children. -/
def walk (m : DiagramModel) : Nat → List Nat → List Nat
  | 0, _ => []
  | _ + 1, [] => []
  | fuel + 1, position :: stack =>
    position :: walk m fuel (m.shownChildren position ++ stack)

def idOf (m : DiagramModel) (position : Nat) : String :=
  ((m.node? position).map (·.id)).getD ""

def nodeLine (m : DiagramModel) (position : Nat) : Option String :=
  match m.node? position with
  | some ⟨id, .ofModule _ path stats _⟩ =>
    some ("    " ++ id ++ quoted (escapeLabel path ++ "<br/>" ++ stats.label))
  | _ => none

def edgeLines (m : DiagramModel) (position : Nat) : List String :=
  (m.shownChildren position).map fun child =>
    "    " ++ idOf m position ++ " --> " ++ idOf m child

def click? (m : DiagramModel) (document : Path) (position : Nat) : Option Click :=
  match m.node? position with
  | some ⟨id, .ofModule _ path stats (some doc)⟩ =>
    some ⟨id, linkTo document doc none, escapeLabel path ++ ": " ++ stats.label⟩
  | _ => none

/-- The component tree of a module and all below it, for the document at the given path. -/
def generate (m : DiagramModel) (scope : Nat) (direction : Direction) (document : Path) :
    Artifact :=
  let positions := walk m m.nodes.size (m.position? scope).toList
  .ofLines .componentTree document
    (diagramHeader direction :: (positions.filterMap (nodeLine m) ++
      positions.flatMap (edgeLines m)))
    (positions.filterMap (click? m document))

end CodeAtlas.ComponentTree
