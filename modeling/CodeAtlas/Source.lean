import CodeAtlas.Language
import CodeAtlas.Text.Lines

/-!
# Sources and what is found in them

A source file, the classes and warnings an analysis of it yields, and how the lines of a class are
counted.
-/
namespace CodeAtlas

structure SourceFile where
  path : Path
  language : Language
  text : String
  deriving DecidableEq, Repr

/-- A class and where it stands; lines count from one and `endLine` is included. -/
structure ClassInfo where
  name : String
  file : Path
  /-- Lines of the class that are not blank and belong to no class inside it. -/
  loc : Nat
  methodCount : Nat
  startLine : Nat
  endLine : Nat
  deriving DecidableEq, Repr, Inhabited

/-- The name under which the class is found in a document. -/
def ClassInfo.anchor (c : ClassInfo) : String := Text.lower c.name

inductive WarningKind where
  /-- A construct could not be read. -/
  | parse
  /-- A file or directory could not be read. -/
  | read
  /-- Several directories became one module. -/
  | conflict
  deriving DecidableEq, Repr

namespace WarningKind

/-- The word shown to people. -/
def label : WarningKind → String
  | parse => "parse"
  | read => "read"
  | conflict => "aggregation-conflict"

/-- The word used in data. -/
def key : WarningKind → String
  | parse => "parse"
  | read => "read"
  | conflict => "aggregation_conflict"

end WarningKind

/-- A problem that does not stop the work. -/
structure Warning where
  path : Path
  line : Option Nat
  kind : WarningKind
  message : String
  deriving DecidableEq, Repr

namespace Warning

def parse (path : Path) (line : Nat) (message : String) : Warning :=
  ⟨path, some line, .parse, message⟩

def read (path : Path) (message : String) : Warning := ⟨path, none, .read, message⟩

def conflict (path : Path) (message : String) : Warning := ⟨path, none, .conflict, message⟩

/-- The warning in one line of text. -/
def display (w : Warning) : String :=
  match w.line with
  | some n => w.path.text ++ ":" ++ toString n ++ ": [" ++ w.kind.label ++ "] " ++ w.message
  | none => w.path.text ++ ": [" ++ w.kind.label ++ "] " ++ w.message

end Warning

/-- What is found in one file. -/
structure Analysis where
  classes : List ClassInfo
  warnings : List Warning
  deriving DecidableEq, Repr, Inhabited

def Analysis.empty : Analysis := ⟨[], []⟩

def Analysis.isEmpty (a : Analysis) : Bool := a.classes.isEmpty && a.warnings.isEmpty

/-- A first and a last line. -/
abbrev LineSpan := Nat × Nat

/-- Whether the line lies in one of the spans. -/
def inSpans (spans : List LineSpan) (n : Nat) : Bool :=
  spans.any fun s => s.1 ≤ n && n ≤ s.2

/--
Lines from `first` to `last` that are not blank and lie in no nested span. Line zero, which no
text has, reads as line one, and a line past the end of the text is blank.
-/
def countLoc (lines : Array (List Char)) (first last : Nat) (nested : List LineSpan) : Nat :=
  (List.range' first (min last lines.size + 1 - first)).countP fun n =>
    !inSpans nested n && (lines[n - 1]?).any fun line => !Text.allBlank line

end CodeAtlas
