import CodeAtlas.Text.Case

/-!
# Kinds and directions of diagrams
-/
namespace CodeAtlas

inductive DiagramKind where
  /-- Modules as nested boxes with their classes inside. -/
  | classGraph
  /-- Modules as nodes, each joined to the module above it. -/
  | componentTree
  deriving DecidableEq, Repr, Inhabited

namespace DiagramKind

/-- Every kind, in the order in which diagrams are made. -/
def all : List DiagramKind := [classGraph, componentTree]

def name : DiagramKind → String
  | classGraph => "class_graph"
  | componentTree => "component_tree"

def title : DiagramKind → String
  | classGraph => "Class graph"
  | componentTree => "Component tree"

/-- Reads a name as a person gives it: case does not matter and a hyphen is an underscore. -/
def ofName? (name : String) : Option DiagramKind :=
  match (Text.lower name).map fun c => if c = '-' then '_' else c with
  | "class_graph" | "classes" | "class" => some classGraph
  | "component_tree" | "components" | "component" => some componentTree
  | _ => none

theorem ofName?_name (k : DiagramKind) : ofName? k.name = some k := by
  cases k <;> decide +kernel

/-- The kinds that occur, each once, in the order of `all`. -/
def distinct (ks : List DiagramKind) : List DiagramKind := all.filter (· ∈ ks)

end DiagramKind

/-- Where a diagram grows to from its start: down, right, up or left. -/
inductive Direction where
  | down
  | right
  | up
  | left
  deriving DecidableEq, Repr, Inhabited

namespace Direction

def all : List Direction := [down, right, up, left]

def name : Direction → String
  | down => "TB"
  | right => "LR"
  | up => "BT"
  | left => "RL"

def ofName? (name : String) : Option Direction :=
  match Text.upper name with
  | "TB" | "TD" => some down
  | "LR" => some right
  | "BT" => some up
  | "RL" => some left
  | _ => none

theorem ofName?_name (d : Direction) : ofName? d.name = some d := by
  cases d <;> decide +kernel

end Direction
end CodeAtlas
