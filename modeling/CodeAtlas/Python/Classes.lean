import CodeAtlas.Python.Parser

/-!
# Classes of Python

Reads the classes off a syntax tree. Faults become warnings: what is below an error is passed
over, and a class with an error in it is not counted, though classes inside it may be.
-/
namespace CodeAtlas.Python

/-- What the walk over a tree comes upon. -/
inductive Finding where
  | ofClass (info : ClassInfo)
  | warning (w : Warning)
  deriving DecidableEq, Repr

def Finding.class? : Finding → Option ClassInfo
  | .ofClass c => some c
  | .warning _ => none

def Finding.warning? : Finding → Option Warning
  | .ofClass _ => none
  | .warning w => some w

namespace SyntaxTree

def name? (t : SyntaxTree) : Option String := (t.child? .name).map (·.label.text)

/-- A function, decorated or not. -/
def isMethod (t : SyntaxTree) : Bool :=
  match t.kind with
  | .functionDefinition => true
  | .decoratedDefinition => (t.child? .definition).any fun d => d.kind = .functionDefinition
  | _ => false

/-- The functions right in the body of a class. -/
def methodCount (t : SyntaxTree) : Nat :=
  match t.child? .body with
  | none => 0
  | some body => body.children.countP isMethod

mutual
/-- The lines of the classes below a node, without those of classes inside them. -/
def nestedSpans : SyntaxTree → List LineSpan
  | node _ cs => spansOf cs

def spansOf : List SyntaxTree → List LineSpan
  | [] => []
  | node l cs :: rest =>
    (if l.kind = .classDefinition then [l.span] else nestedSpans (node l cs)) ++ spansOf rest
end

end SyntaxTree

def errorMessage : String := "syntax error; construct skipped"

def unnamedMessage : String := "class definition without a name"

def brokenClassMessage (name : Option String) : String :=
  "syntax error in class " ++ name.getD "<unnamed>" ++ "; class skipped"

/-- What a class definition gives: the class, or a warning if it is broken or has no name. -/
def classFinding (file : Path) (lines : Array (List Char)) (t : SyntaxTree) : Finding :=
  let (first, last) := t.label.span
  if t.hasError then .warning (.parse file first (brokenClassMessage t.name?))
  else
    match t.name? with
    | none => .warning (.parse file first unnamedMessage)
    | some name =>
      let nested := ((t.child? .body).map SyntaxTree.nestedSpans).getD []
      .ofClass ⟨name, file, countLoc lines first last nested, t.methodCount, first, last⟩

mutual
/-- The findings at a node and below it, in the order of the text. -/
def findings (file : Path) (lines : Array (List Char)) : SyntaxTree → List Finding
  | .node l cs =>
    if l.kind = .error || l.kind = .missing then
      [.warning (.parse file l.span.1 errorMessage)]
    else if l.kind = .classDefinition then
      classFinding file lines (.node l cs) :: findingsOf file lines cs
    else findingsOf file lines cs

def findingsOf (file : Path) (lines : Array (List Char)) : List SyntaxTree → List Finding
  | [] => []
  | c :: cs => findings file lines c ++ findingsOf file lines cs
end

/-- The classes and warnings of a syntax tree for a text with the given lines. -/
def analyzeTree (file : Path) (lines : Array (List Char)) (t : SyntaxTree) : Analysis :=
  let found := findings file lines t
  ⟨found.filterMap Finding.class?, found.filterMap Finding.warning?⟩

def analyze (file : SourceFile) : Analysis :=
  let text := file.text.toList
  analyzeTree file.path (Text.lines text).toArray (parse text)

end CodeAtlas.Python
