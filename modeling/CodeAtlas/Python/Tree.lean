import CodeAtlas.Source

/-!
# Syntax trees

The part of a syntax tree that classes are read from. A node has a kind, the role it plays in its
parent, the rows it begins and ends on, and its children in order. Where the text does not fit
the grammar a node is an error, or stands for something missing.
-/
namespace CodeAtlas.Python

inductive NodeKind where
  | classDefinition
  | functionDefinition
  | decoratedDefinition
  | error
  | missing
  | other
  deriving DecidableEq, Repr, Inhabited

inductive NodeRole where
  | name
  | body
  | definition
  | none
  deriving DecidableEq, Repr, Inhabited

structure NodeLabel where
  kind : NodeKind := .other
  role : NodeRole := .none
  /-- First and last row, from one. -/
  span : LineSpan
  /-- The text of a leaf. -/
  text : String := ""
  deriving DecidableEq, Repr, Inhabited

inductive SyntaxTree where
  | node (label : NodeLabel) (children : List SyntaxTree)
  deriving Repr, Inhabited

namespace SyntaxTree

def label : SyntaxTree → NodeLabel
  | node l _ => l

def children : SyntaxTree → List SyntaxTree
  | node _ cs => cs

def kind (t : SyntaxTree) : NodeKind := t.label.kind

/-- The node itself is at fault. -/
def isBroken (t : SyntaxTree) : Bool := t.kind = .error || t.kind = .missing

def leaf (l : NodeLabel) : SyntaxTree := node l []

/-- The child that plays the role. -/
def child? (t : SyntaxTree) (role : NodeRole) : Option SyntaxTree :=
  t.children.find? fun c => c.label.role = role

mutual
/-- Whether there is a fault at the node or below it. -/
def hasError : SyntaxTree → Bool
  | node l cs => l.kind = .error || l.kind = .missing || anyError cs

def anyError : List SyntaxTree → Bool
  | [] => false
  | c :: cs => hasError c || anyError cs
end

end SyntaxTree
end CodeAtlas.Python
