import CodeAtlas.Diagram.Artifact

/-!
# Class graphs

A box for each module of the scope that has classes at or below it, with its classes and then the
boxes of its child modules inside.
-/
namespace CodeAtlas.ClassGraph

def indent (depth : Nat) : String := String.ofList (List.replicate (4 * depth) ' ')

/-- Part of a diagram: lines, and the clicks of the classes they declare. -/
structure Part where
  lines : List String
  clicks : List Click
  deriving Repr

def Part.join (parts : List Part) : Part :=
  ⟨parts.flatMap (·.lines), parts.flatMap (·.clicks)⟩

/-- A class inside a box at the given depth. -/
def classPart (document : Path) (depth : Nat) (node : DiagramNode) : Part :=
  match node.info with
  | .ofClass name loc methodCount anchor doc =>
    let lines := counted loc "line" "lines"
    ⟨[indent (depth + 1) ++ node.id ++ quoted (escapeLabel name ++ "<br/>" ++ lines)],
      [⟨node.id, linkTo document doc (some anchor),
        escapeLabel name ++ ": " ++ lines ++ ", " ++ counted methodCount "method" "methods"⟩]⟩
  | .ofModule .. => ⟨[], []⟩

/-- The box of a module, at most `fuel` boxes deep. -/
def box (m : DiagramModel) (document : Path) : Nat → Nat → Nat → Part
  | 0, _, _ => ⟨[], []⟩
  | fuel + 1, depth, position =>
    match m.node? position with
    | some ⟨id, .ofModule _ path stats _⟩ =>
      let classes := (m.contained position .ownClass).filterMap m.node?
      let inner := Part.join (classes.map (classPart document depth) ++
        (m.shownChildren position).map (box m document fuel (depth + 1)))
      ⟨[indent depth ++ "subgraph " ++ id ++
          quoted (escapeLabel path ++ "<br/>" ++ stats.label)] ++
        inner.lines ++ [indent depth ++ "end"], inner.clicks⟩
    | _ => ⟨[], []⟩

/-- The class graph of a module and all below it, for the document at the given path. -/
def generate (m : DiagramModel) (scope : Nat) (direction : Direction) (document : Path) :
    Artifact :=
  let part := match m.position? scope with
    | some position => box m document m.nodes.size 1 position
    | none => ⟨[], []⟩
  .ofLines .classGraph document (diagramHeader direction :: part.lines) part.clicks

end CodeAtlas.ClassGraph
