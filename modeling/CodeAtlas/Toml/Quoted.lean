/-!
# Strings in TOML

Of the ways to write a string the plainest that can hold it is taken: between double quotes
without escapes, between single quotes, then both again between triple marks, and only then with
escapes.
-/
namespace CodeAtlas.Toml

/-- The length of the longest run of a character; `run` is that of the run so far. -/
def longestRun (a : Char) (run best : Nat) : List Char → Nat
  | [] => best
  | c :: cs =>
    let run := if c = a then run + 1 else 0
    longestRun a run (max best run) cs

/-- What decides how a string can be written. -/
structure StringTraits where
  singleQuotes : Nat
  doubleQuotes : Nat
  /-- There is a control character that only an escape can give. -/
  needsCode : Bool
  hasBackslash : Bool
  hasNewline : Bool
  deriving DecidableEq, Repr

def isPlainControl (c : Char) : Bool := c = '\t' || c = '\n'

def isControl (c : Char) : Bool := c.toNat < 0x20 || c = '\x7f'

def StringTraits.of (cs : List Char) : StringTraits where
  singleQuotes := longestRun '\x27' 0 0 cs
  doubleQuotes := longestRun '\x22' 0 0 cs
  needsCode := cs.any fun c => isControl c && !isPlainControl c
  hasBackslash := cs.contains '\\'
  hasNewline := cs.contains '\n'

inductive StringStyle where
  | basic
  | literal
  | longBasic
  | longLiteral
  deriving DecidableEq, Repr

def StringTraits.style (t : StringTraits) : StringStyle :=
  if !t.needsCode && !t.hasBackslash && t.doubleQuotes = 0 && !t.hasNewline then .basic
  else if !t.needsCode && t.singleQuotes = 0 && !t.hasNewline then .literal
  else if !t.needsCode && !t.hasBackslash && t.doubleQuotes ≤ 2 then .longBasic
  else if !t.needsCode && t.singleQuotes ≤ 2 then .longLiteral
  else if t.hasNewline then .longBasic
  else .basic

def StringStyle.isLong : StringStyle → Bool
  | longBasic | longLiteral => true
  | _ => false

def StringStyle.delimiter : StringStyle → String
  | basic => "\""
  | literal => "'"
  | longBasic => "\"\"\""
  | longLiteral => "'''"

def upperHex (n : Nat) : Char := "0123456789ABCDEF".toList.getD n '0'

/--
Writes with escapes; `run` counts the double quotes right before. Between triple marks two of them
in a row stand as they are, and so do line feeds.
-/
def escapeFrom (isLong : Bool) (run : Nat) : List Char → List Char
  | [] => []
  | c :: cs =>
    let go (text : List Char) := text ++ escapeFrom isLong 0 cs
    if c = '\x22' then
      if (if isLong then 2 else 0) ≤ run then go ['\\', '\x22']
      else c :: escapeFrom isLong (run + 1) cs
    else if c = '\x08' then go ['\\', 'b']
    else if c = '\t' then go ['\\', 't']
    else if c = '\n' then go (if isLong then ['\n'] else ['\\', 'n'])
    else if c = '\x0c' then go ['\\', 'f']
    else if c = '\r' then go ['\\', 'r']
    else if c = '\\' then go ['\\', '\\']
    else if isControl c then
      go ['\\', 'u', '0', '0', upperHex (c.toNat / 16), upperHex (c.toNat % 16)]
    else go [c]

def quote (s : String) : String :=
  let cs := s.toList
  let traits := StringTraits.of cs
  let style := traits.style
  let body := match style with
    | .literal | .longLiteral => cs
    | _ => escapeFrom style.isLong 0 cs
  style.delimiter ++ (if style.isLong && traits.hasNewline then "\n" else "") ++
    String.ofList body ++ style.delimiter

/-- A list of strings: on one line up to one entry, else each entry on a line of its own. -/
def quoteList : List String → String
  | [] => "[]"
  | [s] => "[" ++ quote s ++ "]"
  | ss => "[\n" ++ String.join (ss.map fun s => "    " ++ quote s ++ ",\n") ++ "]"

end CodeAtlas.Toml
