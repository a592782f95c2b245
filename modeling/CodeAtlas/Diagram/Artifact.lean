import CodeAtlas.Diagram.Kind
import CodeAtlas.Diagram.Model
import CodeAtlas.Link

/-!
# Diagrams as text

What both kinds of diagram share: labels, the wording of counts, links, and the finished artifact.
-/
namespace CodeAtlas

/-- A diagram for one document. -/
structure Artifact where
  /-- Where the document will be, seen from the output directory. -/
  path : Path
  kind : DiagramKind
  diagram : String
  /-- The link of each node that has one, by the node's id. -/
  links : List (String × String)
  deriving DecidableEq, Repr

/-- A count with its noun. -/
def counted (n : Nat) (singular plural : String) : String :=
  toString n ++ " " ++ if n = 1 then singular else plural

def Stats.label (s : Stats) : String :=
  counted s.classCount "class" "classes" ++ " | " ++ counted s.totalLoc "line" "lines"

/-- Characters that would end a label or be taken for markup are written as codes. -/
def escapeChar (c : Char) : List Char :=
  if c = '\x22' then "#quot;".toList
  else if c = '<' then "#lt;".toList
  else if c = '>' then "#gt;".toList
  else [c]

def escapeLabel (s : String) : String := String.ofList (s.toList.flatMap escapeChar)

/-- The link from the document at `document` to another file, down to the anchor if given. -/
def linkTo (document target : Path) (anchor : Option String) : String :=
  let link := relativeLink (document.parent?.getD ⟨""⟩) target
  match anchor with
  | some a => link ++ "#" ++ a
  | none => link

/-- A node of a diagram that can be clicked: its id, its link and the words shown for it. -/
structure Click where
  id : String
  link : String
  tip : String
  deriving DecidableEq, Repr

def Click.line (c : Click) : String :=
  "    click " ++ c.id ++ " \"" ++ c.link ++ "\" \"" ++ c.tip ++ "\""

def diagramHeader (direction : Direction) : String := "graph " ++ direction.name

def quoted (s : String) : String := "[\"" ++ s ++ "\"]"

/-- The artifact made of its lines before the clicks, and the clicks. -/
def Artifact.ofLines (kind : DiagramKind) (path : Path) (lines : List String)
    (clicks : List Click) : Artifact where
  path := path
  kind := kind
  diagram := "\n".intercalate (lines ++ clicks.map Click.line)
  links := clicks.map fun c => (c.id, c.link)

end CodeAtlas
