import CodeAtlas.Python.Token
import CodeAtlas.Python.Quote

/-!
# Reading the tokens of Python

Line ends are no tokens: whether one matters depends on the brackets around it, and each token
says whether it is the first of its line.
-/
namespace CodeAtlas.Python

/-- Marks of several characters, longer ones first. -/
def longMarks : List String :=
  ["**=", "//=", ">>=", "<<=", "...", "->", ":=", "==", "!=", "<>", "<=", ">=", "<<", ">>",
    "**", "//", "+=", "-=", "*=", "/=", "%=", "@=", "&=", "|=", "^="]

def isShortMark (c : Char) : Bool := "+-*/%@&|^~<>()[]\x7b\x7d,:;.=".toList.contains c

/-- The mark that the text begins with. -/
def mark? (cs : List Char) : Option String :=
  match longMarks.find? fun m => m.toList.isPrefixOf cs with
  | some m => some m
  | none =>
    match cs with
    | c :: _ => if isShortMark c then some c.toString else none
    | [] => none

def isDigitOrLow (c : Char) : Bool := c.isDigit || c = '_'

/-- How many characters the exponent at the front takes. -/
def exponentLength : List Char → Nat
  | e :: cs =>
    if e = 'e' || e = 'E' then
      match cs with
      | s :: d :: rest =>
        if (s = '+' || s = '-') && d.isDigit then 3 + (rest.takeWhile isDigitOrLow).length
        else if s.isDigit then 1 + (cs.takeWhile isDigitOrLow).length
        else 0
      | [d] => if d.isDigit then 2 else 0
      | [] => 0
    else 0
  | [] => 0

/-- Takes in the letter that can end a number of `n` characters. -/
def withSuffix (cs : List Char) (n : Nat) : Nat :=
  match cs.drop n with
  | c :: _ => if "jJlL".toList.contains c then n + 1 else n
  | [] => n

/-- Digits, a point with further digits, and an exponent. -/
def decimalLength (cs : List Char) : Nat :=
  let whole := (cs.takeWhile isDigitOrLow).length
  let point := match cs.drop whole with
    | '.' :: rest => 1 + (rest.takeWhile isDigitOrLow).length
    | _ => 0
  whole + point + exponentLength (cs.drop (whole + point))

/-- How many characters the number at the front takes. -/
def numberLength (cs : List Char) : Nat :=
  match cs with
  | '0' :: base :: rest =>
    if "xXoObB".toList.contains base then
      withSuffix cs (2 + (rest.takeWhile fun c => isDigitOrLow c ||
        ((base = 'x' || base = 'X') && "abcdefABCDEF".toList.contains c)).length)
    else withSuffix cs (decimalLength cs)
  | _ => withSuffix cs (decimalLength cs)

/-- A token's kind, text, rest and last row. -/
structure Lexeme where
  kind : TokenKind
  text : List Char
  rest : List Char
  endRow : Nat

def stringLexeme (flags : List Char) (mark : Char) (after : List Char) (row : Nat) : Lexeme :=
  let (style, marks) := QuoteStyle.of flags mark after
  match skipQuote [.text style true] (marks - 1) row after with
  | some (rest, endRow) => ⟨.string, [], rest, endRow⟩
  | none => ⟨.unknown, [], after.dropWhile (· ≠ '\n'), row⟩

/-- The token at the front of a text that begins with neither blank nor comment. -/
def lexeme (row : Nat) (c : Char) (rest : List Char) : Lexeme :=
  let cs := c :: rest
  if isQuote c then stringLexeme [] c rest row
  else if isNameStart c then
    let word := cs.takeWhile isNamePart
    let after := cs.dropWhile isNamePart
    match word.all isFlag, after with
    | true, mark :: afterMark =>
      if isQuote mark then stringLexeme word mark afterMark row else ⟨.name, word, after, row⟩
    | _, _ => ⟨.name, word, after, row⟩
  else if c.isDigit || (c = '.' && rest.head?.any Char.isDigit) then
    let n := numberLength cs
    ⟨.number, cs.take n, cs.drop n, row⟩
  else
    match mark? cs with
    | some m => ⟨.mark, m.toList, cs.drop m.length, row⟩
    | none => ⟨.unknown, [c], rest, row⟩

/-- Where the reading is in a line. -/
structure LineState where
  row : Nat
  /-- Columns of blank since the line began or a form feed or return took them back. -/
  indent : Nat
  /-- Whether a line has begun since the last token. -/
  isStart : Bool
  /-- Comment lines since the last token, the last one first. -/
  comments : List CommentLine

/-- Blanks that may stand anywhere and have no width. -/
def isInvisible (c : Char) : Bool := c = '\ufeff' || c = '\u2060' || c = '\u200b' || c = '\x0b'

/-- The state after a blank, and nothing for a character that is none. -/
def LineState.blank? (s : LineState) (c : Char) : Option LineState :=
  if c = '\n' then some { s with row := s.row + 1, indent := 0, isStart := true }
  else if c = ' ' then some { s with indent := s.indent + 1 }
  else if c = '\t' then some { s with indent := s.indent + 8 }
  else if c = '\r' || c = '\x0c' then some { s with indent := 0 }
  else if isInvisible c then some s
  else none

/-- The rest after a backslash that joins two lines. -/
def joinedLine? : List Char → Option (List Char)
  | '\\' :: '\n' :: rest => some rest
  | '\\' :: '\r' :: '\n' :: rest => some rest
  | _ => none

/-- Reads on; each round takes at least one character, so `fuel` is the length of the text. -/
def lexFrom (s : LineState) (out : List Token) : Nat → List Char → List Token
  | 0, _ | _, [] =>
    (⟨.finish, "", s.row, s.row, some 0, s.comments.reverse⟩ :: out).reverse
  | fuel + 1, c :: rest =>
    match s.blank? c with
    | some s => lexFrom s out fuel rest
    | none =>
      if c = '#' then
        let comments :=
          if s.isStart then ⟨s.row, s.indent⟩ :: s.comments else s.comments
        lexFrom { s with comments := comments } out fuel (rest.dropWhile (· ≠ '\n'))
      else
        match joinedLine? (c :: rest) with
        | some rest => lexFrom { s with row := s.row + 1 } out fuel rest
        | none =>
          let l := lexeme s.row c rest
          let t : Token := ⟨l.kind, String.ofList l.text, s.row, l.endRow,
            if s.isStart then some s.indent else none, s.comments.reverse⟩
          lexFrom ⟨l.endRow, s.indent, false, []⟩ (t :: out) fuel l.rest

/-- The tokens of a text; the last one marks its end. -/
def tokens (text : List Char) : List Token :=
  lexFrom ⟨1, 0, false, []⟩ [] text.length text

end CodeAtlas.Python
