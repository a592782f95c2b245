import CodeAtlas.Python.Lexer
import CodeAtlas.Python.Phrase
import CodeAtlas.Python.Tree

/-!
# Parsing Python

Builds the syntax tree of a text from its statements and blocks. A block begins with a deeper line
after a header and ends before the first line that is less deep, together with the comment lines
right after its last statement that are as deep as it is. A header with nothing deeper after it
has an empty block.

A statement that does not parse becomes an error, and so does a `try` block that nothing handles. A
definition whose header is at fault up to its colon keeps its block and has the error inside it.
-/
namespace CodeAtlas.Python

/-- Nodes that have been read, the last row they reach, and what is left. -/
structure Parsed where
  nodes : List SyntaxTree
  lastRow : Nat
  rest : List Token

def errorLeaf (row lastRow : Nat) : SyntaxTree := .leaf { kind := .error, span := (row, lastRow) }

/-- The node for a phrase that makes up a statement. -/
def Phrase.node (p : Phrase) (firstRow : Nat) : SyntaxTree :=
  match p.state.error with
  | some row => errorLeaf row p.state.lastRow
  | none => .leaf { span := (firstRow, p.state.lastRow) }

def importMarks : List String := [".", "...", ",", "*", "(", ")"]

/-- Reads what is imported: names and a few marks, over several lines inside parentheses. -/
def readImport (firstRow depth : Nat) (s : PhraseState) : List Token → Phrase
  | [] => ⟨s, .lineEnd, []⟩
  | t :: rest =>
    if t.isFinish || (t.indent.isSome && depth = 0) then
      let s := if depth = 0 then s else { s with error := some firstRow }
      ⟨if s.isReady then s else s.fail s.lastRow, .lineEnd, t :: rest⟩
    else if t.isMark ";" && depth = 0 then ⟨s, .semicolon, rest⟩
    else
      let s := { s with lastRow := t.endRow }
      let s := if t.kind = .name || (t.kind = .mark && importMarks.contains t.text) then s.ready
        else s.fail t.row
      let depth := if t.isMark "(" then depth + 1 else if t.isMark ")" then depth - 1 else depth
      readImport firstRow depth s rest

/-- Whether the token, on the same line, begins an operand without a mark. -/
def beginsOperand (t : Token) : Bool :=
  t.indent.isNone && match t.kind with
    | .number | .string => true
    | .name => !binaryWords.contains t.text
    | _ => false

/-- Whether a word that can be a name too is used as the keyword of a statement. -/
def isSoftKeyword (t : Token) (next : Option Token) : Bool :=
  (t.isWord "print" || t.isWord "exec" || t.isWord "type") && next.any beginsOperand

/-- Reads a simple statement. -/
def readSimple (t : Token) (rest : List Token) : Phrase :=
  let start : PhraseState := { lastRow := t.endRow }
  if t.isWord "import" || t.isWord "from" then readImport t.row 0 start rest
  else if t.isWord "return" || t.isWord "raise" then
    readPhrase .line t.row false start.awaitLoosely rest
  else if t.isWord "pass" || t.isWord "break" || t.isWord "continue" then
    readPhrase .line t.row false start.ready rest
  else if t.isWord "del" || t.isWord "assert" || t.isWord "global" || t.isWord "nonlocal" ||
      isSoftKeyword t rest.head? then
    readPhrase .line t.row false start.await rest
  else readPhrase .line t.row true start.await (t :: rest)

/-- Reads simple statements up to the end of the line. -/
def readSimples (out : List SyntaxTree) (lastRow : Nat) : Nat → List Token → Parsed
  | 0, tokens => ⟨out.reverse, lastRow, tokens⟩
  | _ + 1, [] => ⟨out.reverse, lastRow, []⟩
  | fuel + 1, t :: rest =>
    let p := readSimple t rest
    let out := p.node t.row :: out
    let more := match p.stop, p.rest with
      | .semicolon, next :: _ => next.indent.isNone
      | _, _ => false
    if more then readSimples out p.state.lastRow fuel p.rest
    else ⟨out.reverse, p.state.lastRow, p.rest⟩

/-- Headers that nothing has to follow before the colon. -/
def bareHeaders : List String := ["else", "try", "finally", "except"]

def headerWords : List String := ["if", "elif", "while", "for", "with"] ++ bareHeaders

/-- Reads a header from its keyword `t` on. -/
def readHeader (t : Token) (rest : List Token) : Phrase :=
  let start : PhraseState := { lastRow := t.endRow }
  readPhrase (.header false) t.row false
    (if bareHeaders.contains t.text then start.awaitOrEnd else start.await) rest

/-- The header of a `match` statement or one of its cases, if the word is used so here. -/
def softHeader? (t : Token) (rest : List Token) : Option Phrase :=
  if t.isWord "match" || t.isWord "case" then
    let p := readHeader t rest
    let fits := p.stop = .colon && p.state.error.isNone &&
      (t.isWord "case" || p.rest.head?.any fun next => next.indent.isSome)
    if fits then some p else none
  else none

/-- The header of a compound statement that defines nothing, if one begins here. -/
def compoundHeader? (t : Token) (rest : List Token) : Option Phrase :=
  if t.kind = .name && headerWords.contains t.text then some (readHeader t rest)
  else if t.isWord "async" then
    match rest with
    | u :: rest =>
      if u.isWord "for" || u.isWord "with" then some (readHeader u rest) else none
    | [] => none
  else softHeader? t rest

/-- A class or function up to the colon of its header. -/
structure DefinitionHeader where
  kind : NodeKind
  name : Token
  phrase : Phrase

def definitionAfter? (kind : NodeKind) (typed : Bool) : List Token → Option DefinitionHeader
  | n :: rest =>
    if n.kind = .name && n.indent.isNone then
      some ⟨kind, n, readPhrase (.header typed) n.row false
        (PhraseState.ready { lastRow := n.endRow }) rest⟩
    else none
  | [] => none

/-- The class or function that begins here, if its keyword is followed by a name. -/
def definitionHeader? : List Token → Option DefinitionHeader
  | t :: rest =>
    if t.isWord "class" then definitionAfter? .classDefinition false rest
    else if t.isWord "def" then definitionAfter? .functionDefinition true rest
    else if t.isWord "async" then
      match rest with
      | u :: rest => if u.isWord "def" then definitionAfter? .functionDefinition true rest else none
      | [] => none
    else none
  | [] => none

/-- Whether a class or function has to begin here. -/
def beginsDefinition : List Token → Bool
  | t :: rest => t.isWord "class" || t.isWord "def" ||
      (t.isWord "async" && rest.head?.any (·.isWord "def"))
  | [] => false

/-- Reads decorators, each on a line of its own; the nodes are in reverse order. -/
def readDecorators (out : List SyntaxTree) : Nat → List Token → List SyntaxTree × List Token
  | 0, tokens => (out, tokens)
  | _ + 1, [] => (out, [])
  | fuel + 1, t :: rest =>
    if t.isMark "@" then
      let p := readPhrase .line t.row false (PhraseState.await { lastRow := t.endRow }) rest
      readDecorators (p.node t.row :: out) fuel p.rest
    else (out, t :: rest)

/-- Passes over the rest of a line that makes no sense. -/
def skipLine (t : Token) (rest : List Token) : Parsed :=
  let p := readPhrase .line t.row false (PhraseState.fail { lastRow := t.endRow } t.row) rest
  ⟨[p.node t.row], p.state.lastRow, p.rest⟩

/-- Whether a line this deep, after these comments, ends a block of depth `top`. -/
def endsBlock (top : Nat) (t : Token) : Bool := t.indent.any (· < top)

/-- Whether a `try` block in a block of depth `top` goes on with a clause that it needs. -/
def handlesTry (top : Nat) (next : Option Token) : Bool :=
  next.any fun t => !endsBlock top t && (t.isWord "except" || t.isWord "finally")

/-- The comment lines that still belong to a block of depth `top`, and the token without them. -/
def leaveBlock (top lastRow : Nat) (t : Token) : Nat × Token :=
  let own := t.comments.takeWhile fun c => top ≤ c.indent
  ((own.getLast?.map (·.row)).getD lastRow, { t with comments := t.comments.drop own.length })

mutual
/-- Reads the statements of a block of depth `top`. -/
def readBlock (top lastRow : Nat) (out : List SyntaxTree) : Nat → List Token → Parsed
  | 0, tokens => ⟨out.reverse, lastRow, tokens⟩
  | _ + 1, [] => ⟨out.reverse, lastRow, []⟩
  | fuel + 1, t :: rest =>
    if endsBlock top t then
      let (lastRow, t) := leaveBlock top lastRow t
      ⟨out.reverse, lastRow, t :: rest⟩
    else if t.isFinish then ⟨out.reverse, lastRow, t :: rest⟩
    else
      let s := readStatement top fuel (t :: rest)
      readBlock top s.lastRow (s.nodes.reverse ++ out) fuel s.rest
termination_by structural fuel => fuel

/-- Reads what a header with its colon on `row` governs, as one node. -/
def readBody (top row : Nat) : Nat → List Token → Parsed
  | 0, tokens => ⟨[.leaf { role := .body, span := (row, row) }], row, tokens⟩
  | _ + 1, [] => ⟨[.leaf { role := .body, span := (row, row) }], row, []⟩
  | fuel + 1, t :: rest =>
    let p := match t.indent with
      | none => readSimples [] row fuel (t :: rest)
      | some depth =>
        if top < depth then readBlock depth row [] fuel ({ t with comments := [] } :: rest)
        else ⟨[], row, t :: rest⟩
    ⟨[.node { role := .body, span := (row, p.lastRow) } p.nodes], p.lastRow, p.rest⟩
termination_by structural fuel => fuel

/-- Reads a class or function whose header has been read. -/
def readDefinition (top firstRow : Nat) (d : DefinitionHeader) : Nat → Parsed
  | 0 => ⟨[], firstRow, d.phrase.rest⟩
  | fuel + 1 =>
    let s := d.phrase.state
    match d.phrase.stop with
    | .colon =>
      let body := readBody top s.lastRow fuel d.phrase.rest
      let name := SyntaxTree.leaf
        { role := .name, span := (d.name.row, d.name.row), text := d.name.text }
      let errors := (s.error.map fun row => errorLeaf row s.lastRow).toList
      ⟨[.node { kind := d.kind, role := .definition, span := (firstRow, body.lastRow) }
        (name :: errors ++ body.nodes)], body.lastRow, body.rest⟩
    | _ => ⟨[errorLeaf (s.error.getD firstRow) s.lastRow], s.lastRow, d.phrase.rest⟩
termination_by structural fuel => fuel

/-- Reads decorators and the definition that has to follow them. -/
def readDecorated (top : Nat) (t : Token) (rest : List Token) : Nat → Parsed
  | 0 => ⟨[], t.endRow, rest⟩
  | fuel + 1 =>
    let (decorators, after) := readDecorators [] fuel (t :: rest)
    match definitionHeader? after, after with
    | some d, u :: _ =>
      let p := readDefinition top u.row d fuel
      ⟨[.node { kind := .decoratedDefinition, span := (t.row, p.lastRow) }
        (decorators.reverse ++ p.nodes)], p.lastRow, p.rest⟩
    | _, _ => ⟨[errorLeaf t.row t.endRow], t.endRow, after⟩
termination_by structural fuel => fuel

/-- Reads one statement, or a line of simple statements. -/
def readStatement (top : Nat) : Nat → List Token → Parsed
  | 0, tokens => ⟨[], 0, tokens⟩
  | _ + 1, [] => ⟨[], 0, []⟩
  | fuel + 1, t :: rest =>
    if t.isMark "@" then readDecorated top t rest fuel
    else
      match definitionHeader? (t :: rest) with
      | some d => readDefinition top t.row d fuel
      | none =>
        if beginsDefinition (t :: rest) then skipLine t rest
        else
          match compoundHeader? t rest with
          | none => readSimples [] t.row fuel (t :: rest)
          | some p =>
            match p.stop with
            | .colon =>
              let body := readBody top p.state.lastRow fuel p.rest
              let errors := (p.state.error.map fun row => errorLeaf row p.state.lastRow).toList
              if t.isWord "try" && !handlesTry top body.rest.head? then
                ⟨[errorLeaf t.row body.lastRow], body.lastRow, body.rest⟩
              else
                ⟨[.node { span := (t.row, body.lastRow) } (errors ++ body.nodes)],
                  body.lastRow, body.rest⟩
            | _ =>
              ⟨[errorLeaf (p.state.error.getD t.row) p.state.lastRow], p.state.lastRow, p.rest⟩
termination_by structural fuel => fuel
end

/-- The syntax tree of a text. -/
def parse (text : List Char) : SyntaxTree :=
  let ts := tokens text
  let p := readBlock 0 1 [] (4 * ts.length + 4) ts
  .node { span := (1, p.lastRow) } p.nodes

end CodeAtlas.Python
