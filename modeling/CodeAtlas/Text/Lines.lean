import CodeAtlas.Text.Blank

/-!
# Lines

`lines` cuts a text at its line feeds. `lineStarts` gives the byte offset at which each line
begins and `lineOf` the line that holds an offset, by bisection; lines count from one.
-/
namespace CodeAtlas.Text

/-- Bytes of the text in UTF-8. -/
def byteSize (cs : List Char) : Nat := cs.foldl (fun n c => n + c.utf8Size) 0

/-- Drops one carriage return from the front of a reversed line. -/
def dropReturn : List Char → List Char
  | '\r' :: cs => cs
  | cs => cs

/-- `line` is the reversed line so far, `out` the finished lines, last first. -/
def linesFrom (line : List Char) (out : List (List Char)) : List Char → List (List Char)
  | [] => (if line.isEmpty then out else line.reverse :: out).reverse
  | c :: cs =>
    if c = '\n' then linesFrom [] ((dropReturn line).reverse :: out) cs
    else linesFrom (c :: line) out cs

/-- The lines without their ends; a line feed at the very end opens no further line. -/
def lines (cs : List Char) : List (List Char) := linesFrom [] [] cs

def lineStartsFrom (offset : Nat) (out : List Nat) : List Char → List Nat
  | [] => out.reverse
  | c :: cs =>
    let next := offset + c.utf8Size
    lineStartsFrom next (if c = '\n' then next :: out else out) cs

/-- Byte offsets at which the lines begin; the first is always zero. -/
def lineStarts (cs : List Char) : List Nat := lineStartsFrom 0 [0] cs

/--
Narrows `size` entries from `base` on, of which the first is known not to lie above `offset`
unless it is the very first, to one.
-/
def bisect (starts : Array Nat) (offset base size : Nat) : Nat :=
  if 1 < size then
    let half := size / 2
    let mid := base + half
    bisect starts offset (if offset < starts.getD mid 0 then base else mid) (size - half)
  else base
termination_by size
decreasing_by omega

/-- Number of the line that holds the byte offset, or zero when no line begins at or before it. -/
def lineOf (starts : Array Nat) (offset : Nat) : Nat :=
  if starts.size = 0 then 0
  else
    let base := bisect starts offset 0 starts.size
    if starts.getD base 0 ≤ offset then base + 1 else base

/-- The longest beginning of the text that takes at most `limit` bytes, after the reversed `out`. -/
def takeBytesFrom (limit : Nat) (out : List Char) : List Char → List Char
  | [] => out.reverse
  | c :: cs =>
    if c.utf8Size ≤ limit then takeBytesFrom (limit - c.utf8Size) (c :: out) cs
    else out.reverse

/-- The longest beginning of the text that takes at most `limit` bytes. -/
def takeBytes (limit : Nat) (cs : List Char) : List Char := takeBytesFrom limit [] cs

end CodeAtlas.Text
