/-!
# Tokens of Python

A token knows the rows it begins and ends on. What the layout of blocks hangs on stands with it:
the indentation, if the token is the first of its line, and the comment lines right before it.
Rows count from one.
-/
namespace CodeAtlas.Python

inductive TokenKind where
  | name
  | number
  | string
  /-- Operators, brackets and punctuation. -/
  | mark
  /-- What no token can be made of, such as a string without an end. -/
  | unknown
  /-- The end of the text. -/
  | finish
  deriving DecidableEq, Repr, Inhabited

/-- A comment with no code before it on its line. -/
structure CommentLine where
  row : Nat
  indent : Nat
  deriving DecidableEq, Repr

structure Token where
  kind : TokenKind
  text : String
  row : Nat
  endRow : Nat
  /-- The indentation of the line, for the first token of a line. -/
  indent : Option Nat
  /-- The comment lines between the token before and this one. -/
  comments : List CommentLine
  deriving DecidableEq, Repr, Inhabited

namespace Token

def isMark (t : Token) (text : String) : Bool := t.kind = .mark && t.text = text

def isWord (t : Token) (text : String) : Bool := t.kind = .name && t.text = text

def isFinish (t : Token) : Bool := t.kind = .finish

end Token
end CodeAtlas.Python
