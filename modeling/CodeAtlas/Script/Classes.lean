import CodeAtlas.Source
import CodeAtlas.Script.Mask
import CodeAtlas.Script.Declaration
import CodeAtlas.Script.Member

/-!
# Classes of scripts

Reads the classes of a script from the layout of its braces: a body runs from the first `{` after
the declaration to the brace that closes it. A declaration without such a body is a warning.
-/
namespace CodeAtlas.Script

/-- Bytes of a file that are looked at. -/
def maxScanBytes : Nat := 16 * 1024 * 1024

/-- A declaration with the braces of its body. -/
structure Body where
  declaration : Declaration
  opening : Place
  close : Nat
  deriving DecidableEq, Repr

/-- Why a declaration has no body. -/
inductive BodyError where
  | missing
  | unterminated
  deriving DecidableEq, Repr

def BodyError.message (name : String) : BodyError → String
  | missing => "class " ++ name ++ " has no body"
  | unterminated =>
    "unterminated class body for " ++ name ++ "; brace depth never returned to zero"

def bodyOf (braces : Std.HashMap Nat Nat) (d : Declaration) : Except BodyError Body :=
  match d.header.open? with
  | none => .error .missing
  | some opening =>
    match braces[opening.offset]? with
    | some close => .ok ⟨d, opening, close⟩
    | none => .error .unterminated

def Body.encloses (outer inner : Body) : Bool :=
  outer.opening.offset < inner.opening.offset && inner.close < outer.close

def Body.endLine (starts : Array Nat) (b : Body) : Nat := Text.lineOf starts b.close

/--
The lines of the classes inside a body that do not count for it. Lines that an inner class shares
with the first or the last line of the outer one stay with the outer one.
-/
def Body.nestedSpans (starts : Array Nat) (bodies : List Body) (b : Body) : List LineSpan :=
  (bodies.filter b.encloses).map (fun inner =>
    (max inner.declaration.line (b.declaration.line + 1),
      min (inner.endLine starts) (b.endLine starts - 1)))
    |>.filter fun s => s.1 ≤ s.2

def Body.classInfo (file : Path) (starts : Array Nat) (lines : Array (List Char))
    (bodies : List Body) (b : Body) : ClassInfo where
  name := b.declaration.name
  file := file
  loc := countLoc lines b.declaration.line (b.endLine starts) (b.nestedSpans starts bodies)
  methodCount := countMembers b.opening b.close
  startLine := b.declaration.line
  endLine := b.endLine starts

def truncationMessage : String :=
  "file exceeds " ++ toString maxScanBytes ++ " bytes; scan truncated"

/-- The classes and warnings of a text that is looked at whole. -/
def analyzeText (file : Path) (text : List Char) : Analysis :=
  let masked := mask text
  let starts := (Text.lineStarts masked).toArray
  let braces := matchBraces masked
  let found := (declarations masked).map fun d => (d, bodyOf braces d)
  let bodies := found.filterMap fun f => f.2.toOption
  let lines := (Text.lines text).toArray
  { classes := bodies.map (Body.classInfo file starts lines bodies)
    warnings := found.filterMap fun f =>
      match f.2 with
      | .ok _ => none
      | .error e => some (.parse file f.1.line (e.message f.1.name)) }

/-- The classes and warnings of a script; of a file that is too long only the beginning counts. -/
def analyze (file : SourceFile) : Analysis :=
  let text := file.text.toList
  if file.text.utf8ByteSize ≤ maxScanBytes then analyzeText file.path text
  else
    let a := analyzeText file.path (Text.takeBytes maxScanBytes text)
    { a with warnings := .parse file.path 1 truncationMessage :: a.warnings }

end CodeAtlas.Script
