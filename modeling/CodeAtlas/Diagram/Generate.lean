import CodeAtlas.Diagram.ClassGraph
import CodeAtlas.Diagram.ComponentTree

/-!
# Diagrams of any kind
-/
namespace CodeAtlas

/-- The diagram of a kind for one module and all below it. -/
def DiagramKind.generate (kind : DiagramKind) (m : DiagramModel) (scope : Nat)
    (direction : Direction) (document : Path) : Artifact :=
  match kind with
  | .classGraph => ClassGraph.generate m scope direction document
  | .componentTree => ComponentTree.generate m scope direction document

end CodeAtlas
