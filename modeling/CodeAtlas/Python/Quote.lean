import CodeAtlas.Text.Word

/-!
# String literals of Python

Finds the end of a string literal. A formatted string holds code in braces, in which further
strings may stand, whatever their quotes; after a colon that code is followed by a format, which
is text up to the closing brace.
-/
namespace CodeAtlas.Python

def isNameStart (c : Char) : Bool :=
  c.isAlpha || c = '_' || (128 ≤ c.toNat && Text.isWordChar c)

def isNamePart (c : Char) : Bool := Text.isWordChar c

def isQuote (c : Char) : Bool := c = '\x22' || c = '\x27' || c = '\x60'

/-- How a string is written. -/
structure QuoteStyle where
  mark : Char
  isTriple : Bool
  isRaw : Bool
  isFormat : Bool
  isBytes : Bool
  deriving DecidableEq, Repr

def isFlag (c : Char) : Bool := "fFrRbBuU".toList.contains c

/-- The style that the letters before the mark give, and how many marks there are. -/
def QuoteStyle.of (flags : List Char) (mark : Char) (rest : List Char) : QuoteStyle × Nat :=
  let isTriple := mark ≠ '\x60' && rest.take 2 = [mark, mark]
  ({ mark := mark
     isTriple := isTriple
     isRaw := flags.any fun c => c = 'r' || c = 'R'
     isFormat := flags.any fun c => c = 'f' || c = 'F'
     isBytes := flags.any fun c => c = 'b' || c = 'B' }, if isTriple then 3 else 1)

/-- What the search for the end is inside of. -/
inductive QuoteFrame where
  /-- Text of a string; `fresh` until a character of it has been passed. -/
  | text (style : QuoteStyle) (fresh : Bool)
  /-- Code in a formatted string, with the number of brackets open in it. -/
  | code (depth : Nat)
  /-- The format after such code. -/
  | format
  deriving DecidableEq, Repr

/-- Characters to pass over after a backslash in a raw string. -/
def rawEscapeLength (mark : Char) (rest : List Char) : Nat :=
  let n := match rest with
    | c :: _ => if c = mark || c = '\\' then 1 else 0
    | [] => 0
  match rest.drop n with
  | '\r' :: '\n' :: _ => n + 2
  | '\r' :: _ => n + 1
  | '\n' :: _ => n + 1
  | _ => n

/-- Characters to pass over after a backslash in a string that is not raw. -/
def escapeLength (style : QuoteStyle) : List Char → Nat
  | '\r' :: '\n' :: _ => 2
  | 'N' :: '{' :: rest =>
    if style.isBytes then 2
    else
      let name := rest.takeWhile (· ≠ '}')
      if name.length < rest.length then name.length + 3 else 0
  | c :: _ =>
    if style.isBytes && (c = 'N' || c = 'u' || c = 'U') then 2
    else if c = '\x22' || c = '\x27' || c = '\\' || c = '\n' then 1
    else 0
  | [] => 0

/-- A move inside the text of a string: the frames after it and how many characters to pass. -/
def moveText (style : QuoteStyle) (fresh : Bool) (outer : List QuoteFrame) (c : Char)
    (rest : List Char) : Option (List QuoteFrame × Nat) :=
  let stay (fresh : Bool) (n : Nat) := some (QuoteFrame.text style fresh :: outer, n)
  if c = '\x00' then none
  else if style.isFormat && c = '{' then
    if rest.head? = some '{' then stay true 1
    else some (.code 0 :: .text style true :: outer, 0)
  else if style.isFormat && c = '}' then
    if rest.head? = some '}' then stay true 1 else none
  else if c = '\\' then
    if style.isRaw then stay fresh (rawEscapeLength style.mark rest)
    else stay true (escapeLength style rest)
  else if c = style.mark then
    if !style.isTriple then some (outer, 0)
    else if rest.take 2 = [c, c] then some (outer, 2)
    else stay false 0
  else if c = '\n' && !style.isTriple && !fresh then none
  else stay false 0

/-- A move inside the code of a formatted string. -/
def moveCode (depth : Nat) (outer : List QuoteFrame) (c : Char) (rest : List Char) :
    Option (List QuoteFrame × Nat) :=
  let stay (n : Nat) := some (QuoteFrame.code depth :: outer, n)
  let enter (flags : List Char) (mark : Char) (rest : List Char) :=
    let (style, marks) := QuoteStyle.of flags mark rest
    some (.text style true :: .code depth :: outer, flags.length + marks - 1)
  if isQuote c then enter [] c rest
  else if isNamePart c then
    let more := rest.takeWhile isNamePart
    match (c :: more).all isFlag, rest.drop more.length with
    | true, mark :: after =>
      if isQuote mark then enter (c :: more) mark after else stay more.length
    | _, _ => stay more.length
  else if c = '(' || c = '[' || c = '{' then some (.code (depth + 1) :: outer, 0)
  else if c = '}' && depth = 0 then some (outer, 0)
  else if c = ')' || c = ']' || c = '}' then some (.code (depth - 1) :: outer, 0)
  else if c = '!' && rest.head? = some '=' then stay 1
  else if c = ':' && depth = 0 then some (.format :: outer, 0)
  else stay 0

def moveFormat (outer : List QuoteFrame) (c : Char) : Option (List QuoteFrame × Nat) :=
  if c = '{' then some (.code 0 :: .format :: outer, 0)
  else if c = '}' then some (outer, 0)
  else some (.format :: outer, 0)

def moveQuote (frames : List QuoteFrame) (c : Char) (rest : List Char) :
    Option (List QuoteFrame × Nat) :=
  match frames with
  | [] => some ([], 0)
  | .text style fresh :: outer => moveText style fresh outer c rest
  | .code depth :: outer => moveCode depth outer c rest
  | .format :: outer => moveFormat outer c

/--
What follows the string and the row it ends on; nothing when the string has no end. The next
`skip` characters are passed over without a look.
-/
def skipQuote (frames : List QuoteFrame) (skip row : Nat) (cs : List Char) :
    Option (List Char × Nat) :=
  match cs with
  | [] => if frames.isEmpty && skip = 0 then some ([], row) else none
  | c :: rest =>
    if frames.isEmpty && skip = 0 then some (c :: rest, row)
    else
      let next := if c = '\n' then row + 1 else row
      match skip with
      | n + 1 => skipQuote frames n next rest
      | 0 =>
        match moveQuote frames c rest with
        | none => none
        | some (frames, n) => skipQuote frames n next rest

end CodeAtlas.Python
