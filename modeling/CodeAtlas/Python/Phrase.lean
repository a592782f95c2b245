import CodeAtlas.Python.Token

/-!
# Phrases

Checks that what stands on a logical line of Python has the shape of expressions: operands with
operators between them and brackets that match. The check keeps a stack of open brackets and
knows at each token whether an operand has just ended. A token that does not fit is noted once and
passed over, though a bracket is matched even then.
-/
namespace CodeAtlas.Python

/-- What is open around a token. -/
inductive PhraseFrame where
  /-- Parentheses; `typed` if names in them can have annotations. -/
  | paren (typed : Bool)
  | bracket
  | brace
  /-- Between the word `lambda` and its colon. -/
  | lambda
  deriving DecidableEq, Repr

/-- What a phrase is read for. -/
inductive PhraseGoal where
  /-- A simple statement, up to `;` or the end of the line. -/
  | line
  /-- What a block hangs on, up to its colon. -/
  | header (typed : Bool)
  deriving DecidableEq, Repr

inductive PhraseStop where
  | lineEnd
  | semicolon
  | colon
  deriving DecidableEq, Repr

structure PhraseState where
  /-- The innermost frame comes first. -/
  frames : List PhraseFrame := []
  /-- An operand has just ended. -/
  isReady : Bool := false
  /-- The operand that has just ended is a string. -/
  isString : Bool := false
  /-- While an operand is awaited: the phrase may as well end here. -/
  mayEnd : Bool := false
  /-- While an operand is awaited: a comma may as well come here. -/
  mayPart : Bool := false
  /-- The row of the first token that did not fit. -/
  error : Option Nat := none
  lastRow : Nat
  deriving Repr

namespace PhraseState

def fail (s : PhraseState) (row : Nat) : PhraseState := { s with error := s.error.or (some row) }

def ready (s : PhraseState) : PhraseState := { s with isReady := true, isString := false }

def readyString (s : PhraseState) : PhraseState := { s with isReady := true, isString := true }

/-- An operand has to follow. -/
def await (s : PhraseState) : PhraseState :=
  { s with isReady := false, mayEnd := false, mayPart := false }

/-- An operand can follow, or the end. -/
def awaitOrEnd (s : PhraseState) : PhraseState :=
  { s with isReady := false, mayEnd := true, mayPart := false }

/-- An operand can follow, or the end, or a comma. -/
def awaitLoosely (s : PhraseState) : PhraseState :=
  { s with isReady := false, mayEnd := true, mayPart := true }

def push (s : PhraseState) (f : PhraseFrame) : PhraseState :=
  { s.awaitOrEnd with frames := f :: s.frames }

def pop (s : PhraseState) : PhraseState := { s with frames := s.frames.drop 1 }

/-- Whether a line end closes the phrase. -/
def isFlat (s : PhraseState) : Bool := s.frames.all (· = .lambda)

end PhraseState

def binaryWords : List String := ["and", "or", "in", "is", "if", "else", "for", "from", "as"]

def binaryMarks : List String :=
  ["+", "-", "*", "/", "//", "%", "@", "**", "<<", ">>", "&", "|", "^", "<", ">", "<=", ">=",
    "==", "!=", "<>", ":=", "."]

def assignMarks : List String :=
  ["+=", "-=", "*=", "/=", "//=", "%=", "@=", "&=", "|=", "^=", ">>=", "<<=", "**="]

/-- The frame that an opening bracket opens. -/
def openedFrame? (goal : PhraseGoal) (text : String) : Option PhraseFrame :=
  match text with
  | "(" => some (.paren (goal = .header true))
  | "[" => some .bracket
  | "\x7b" => some .brace
  | _ => none

def isCloserOf : PhraseFrame → String → Bool
  | .paren _, text => text = ")"
  | .bracket, text => text = "]"
  | .brace, text => text = "\x7d"
  | .lambda, _ => false

def isCloser (text : String) : Bool := text = ")" || text = "]" || text = "\x7d"

def PhraseState.close (s : PhraseState) (t : Token) : PhraseState :=
  match s.frames with
  | f :: _ => if isCloserOf f t.text then s.pop.ready else s.fail t.row
  | [] => s.fail t.row

/-- A colon, and whether it ends the phrase. -/
def PhraseState.colon (s : PhraseState) (goal : PhraseGoal) (t : Token) :
    PhraseState × Option PhraseStop :=
  let isHeader := goal ≠ .line
  match s.frames with
  | .lambda :: _ => (s.pop.await, none)
  | .bracket :: _ => (s.awaitLoosely, none)
  | .brace :: _ => (if s.isReady then s.await else s.fail t.row, none)
  | .paren typed :: _ =>
    if typed && s.isReady then (s.await, none)
    else (s.fail t.row, if isHeader then some .colon else none)
  | [] =>
    if isHeader then
      (if s.isReady || s.mayEnd then s else s.fail t.row, some .colon)
    else if s.isReady then (s.await, none)
    else (s.fail t.row, none)

def PhraseState.assign (s : PhraseState) (goal : PhraseGoal) (t : Token) : PhraseState :=
  let fits : Bool := match s.frames with
    | [] => goal = .line && (s.isReady || (s.mayEnd && !s.mayPart))
    | .paren _ :: _ | .lambda :: _ => s.isReady
    | _ => false
  if fits then s.await else s.fail t.row

/-- A word or number or string where an operand can begin. -/
def PhraseState.operand (s : PhraseState) (t : Token) : PhraseState :=
  match t.kind with
  | .number => s.ready
  | .string => s.readyString
  | .name =>
    if t.text = "lambda" then s.push .lambda
    else if t.text = "not" || t.text = "await" then s.await
    else if t.text = "from" then s.await
    else if t.text = "yield" then s.awaitLoosely
    else if t.text = "in" && s.mayEnd then s.await
    else if binaryWords.contains t.text then s.fail t.row
    else s.ready
  | _ => s.fail t.row

/-- A mark where an operand can begin; colons, semicolons and `=` are dealt with elsewhere. -/
def PhraseState.leadingMark (s : PhraseState) (goal : PhraseGoal) (t : Token) : PhraseState :=
  match openedFrame? goal t.text with
  | some f => s.push f
  | none =>
    if t.text = "..." then s.ready
    else if t.text = "+" || t.text = "-" || t.text = "~" then s.await
    else if t.text = "*" || t.text = "**" then s.awaitLoosely
    else if t.text = "/" && !s.frames.isEmpty then s.ready
    else if t.text = "," && s.mayPart then s.awaitOrEnd
    else if isCloser t.text && s.mayEnd then s.close t
    else s.fail t.row

/-- A word or number or string after an operand; `next` is the token after it. -/
def PhraseState.afterOperand (s : PhraseState) (t : Token) (next : Option Token) : PhraseState :=
  match t.kind with
  | .string => if s.isString then s else s.fail t.row
  | .name =>
    if binaryWords.contains t.text then s.await
    else if t.text = "not" && next.any (·.isWord "in") then s
    else if t.text = "async" && next.any (·.isWord "for") then s
    else s.fail t.row
  | _ => s.fail t.row

/-- A mark after an operand; colons, semicolons and `=` are dealt with elsewhere. -/
def PhraseState.innerMark (s : PhraseState) (goal : PhraseGoal) (t : Token) : PhraseState :=
  match openedFrame? goal t.text with
  | some f => (if f = .brace then s.fail t.row else s).push f
  | none =>
  if isCloser t.text then s.close t
  else if binaryMarks.contains t.text then s.await
  else if t.text = "," then s.awaitOrEnd
  else if assignMarks.contains t.text && s.frames.isEmpty && goal = .line then s.await
  else if t.text = "->" && s.frames.isEmpty && goal = .header true then s.await
  else s.fail t.row

/-- Takes one token. -/
def PhraseState.step (s : PhraseState) (goal : PhraseGoal) (t : Token) (next : Option Token) :
    PhraseState × Option PhraseStop :=
  let s := { s with lastRow := t.endRow }
  match t.kind with
  | .mark =>
    if t.text = ":" then s.colon goal t
    else if t.text = ";" then
      if s.frames.isEmpty && goal = .line then
        (if s.isReady || s.mayEnd then s else s.fail t.row, some .semicolon)
      else (s.fail t.row, none)
    else if t.text = "=" then (s.assign goal t, none)
    else (if s.isReady then s.innerMark goal t else s.leadingMark goal t, none)
  | .unknown | .finish => (s.fail t.row, none)
  | _ => (if s.isReady then s.afterOperand t next else s.operand t, none)

/-- A phrase that has been read: its state, why it ended, and the tokens after it. -/
structure Phrase where
  state : PhraseState
  stop : PhraseStop
  rest : List Token

/-- Ends a phrase at a line end or at the end of the text. -/
def PhraseState.finishLine (s : PhraseState) (goal : PhraseGoal) (firstRow : Nat) : PhraseState :=
  if !s.frames.isEmpty then { s with error := some firstRow }
  else if goal ≠ .line then s.fail s.lastRow
  else if s.isReady || s.mayEnd then s
  else s.fail s.lastRow

/--
Reads a phrase that begins on the row `firstRow`. `isFirst` holds for the first token, which may
be the first of its line.
-/
def readPhrase (goal : PhraseGoal) (firstRow : Nat) (isFirst : Bool) (s : PhraseState) :
    List Token → Phrase
  | [] => ⟨s.finishLine goal firstRow, .lineEnd, []⟩
  | t :: rest =>
    if t.isFinish || (t.indent.isSome && !isFirst && s.isFlat) then
      ⟨s.finishLine goal firstRow, .lineEnd, t :: rest⟩
    else
      match s.step goal t rest.head? with
      | (s, some stop) => ⟨s, stop, rest⟩
      | (s, none) => readPhrase goal firstRow false s rest

end CodeAtlas.Python
