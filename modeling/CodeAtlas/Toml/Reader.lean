import CodeAtlas.Toml.Scalar
import CodeAtlas.Toml.Value

/-!
# Reading TOML

Reads a document into a table, or nothing if it is not well formed. A reader takes from the front
of the text and gives back the rest.
-/
namespace CodeAtlas.Toml

abbrev Reader (α : Type) := List Char → Option (α × List Char)

def skipSpace (cs : List Char) : List Char := cs.dropWhile fun c => c = ' ' || c = '\t'

/-- Characters that may stand in comments and, quotes and backslashes apart, in strings. -/
def isTextChar (c : Char) : Bool := c = '\t' || (0x20 ≤ c.toNat && c ≠ '\x7f')

def newline? : List Char → Option (List Char)
  | '\n' :: cs => some cs
  | '\r' :: '\n' :: cs => some cs
  | _ => none

/-- The rest of a line after blanks and a comment, if nothing else stands on it. -/
def lineEnd? (cs : List Char) : Option (List Char) :=
  let cs := match skipSpace cs with
    | '#' :: rest => rest.dropWhile isTextChar
    | cs => cs
  if cs.isEmpty then some [] else newline? cs

/-- Passes over blanks, line ends and comments. -/
def skipLines : Nat → List Char → Option (List Char)
  | 0, cs => some cs
  | fuel + 1, cs =>
    match skipSpace cs with
    | '#' :: rest => (newline? (rest.dropWhile isTextChar)).bind (skipLines fuel)
    | cs =>
      match newline? cs with
      | some rest => skipLines fuel rest
      | none => some cs

def hexValue? (cs : List Char) : Option Nat :=
  if cs.all isHexDigit then some (digitsValue 16 cs) else none

/-- The character with a code of `n` digits. -/
def codeChar? (n : Nat) (cs : List Char) : Option (Char × List Char) :=
  if (cs.take n).length < n then none
  else
    match hexValue? (cs.take n) with
    | none => none
    | some code => if Nat.isValidChar code then some (Char.ofNat code, cs.drop n) else none

/-- The character that is escaped after a backslash. -/
def escape? : List Char → Option (Char × List Char)
  | [] => none
  | c :: cs =>
    match c with
    | 'b' => some ('\x08', cs)
    | 't' => some ('\t', cs)
    | 'n' => some ('\n', cs)
    | 'f' => some ('\x0c', cs)
    | 'r' => some ('\r', cs)
    | '\x22' => some ('\x22', cs)
    | '\\' => some ('\\', cs)
    | 'u' => codeChar? 4 cs
    | 'U' => codeChar? 8 cs
    | _ => none

def basicFrom (out : List Char) : Nat → Reader String
  | 0, _ | _, [] => none
  | fuel + 1, c :: cs =>
    if c = '\x22' then some (String.ofList out.reverse, cs)
    else if c = '\\' then (escape? cs).bind fun (e, cs) => basicFrom (e :: out) fuel cs
    else if isTextChar c then basicFrom (c :: out) fuel cs
    else none

def literalFrom (out : List Char) : Reader String
  | [] => none
  | c :: cs =>
    if c = '\x27' then some (String.ofList out.reverse, cs)
    else if isTextChar c then literalFrom (c :: out) cs
    else none

/-- The rest after a backslash that ends a line, past all blanks and line ends. -/
def joinedLines? (cs : List Char) : Option (List Char) :=
  (newline? (skipSpace cs)).map fun rest =>
    rest.dropWhile fun c => c = ' ' || c = '\t' || c = '\n' || c = '\r'

/-- Reads on between triple marks; up to two marks more than three at the end belong inside. -/
def longFrom (mark : Char) (escapes : Bool) (out : List Char) : Nat → Reader String
  | 0, _ | _, [] => none
  | fuel + 1, c :: cs =>
    if c = mark then
      let marks := 1 + (cs.takeWhile (· = mark)).length
      let rest := cs.dropWhile (· = mark)
      if marks < 3 then longFrom mark escapes (List.replicate marks mark ++ out) fuel rest
      else if marks ≤ 5 then
        some (String.ofList (List.replicate (marks - 3) mark ++ out).reverse, rest)
      else none
    else if escapes && c = '\\' then
      match joinedLines? cs with
      | some rest => longFrom mark escapes out fuel rest
      | none => (escape? cs).bind fun (e, cs) => longFrom mark escapes (e :: out) fuel cs
    else if isTextChar c then longFrom mark escapes (c :: out) fuel cs
    else
      match newline? (c :: cs) with
      | some rest => longFrom mark escapes ('\n' :: out) fuel rest
      | none => none

/-- A line end right after the opening marks is no part of the string. -/
def long (mark : Char) (escapes : Bool) (cs : List Char) : Option (String × List Char) :=
  let cs := (newline? cs).getD cs
  longFrom mark escapes [] cs.length cs

def string? : Reader String
  | '\x22' :: '\x22' :: '\x22' :: cs => long '\x22' true cs
  | '\x27' :: '\x27' :: '\x27' :: cs => long '\x27' false cs
  | '\x22' :: cs => basicFrom [] cs.length cs
  | '\x27' :: cs => literalFrom [] cs
  | _ => none

def isBareKeyChar (c : Char) : Bool := c.isAlphanum || c = '_' || c = '-'

def simpleKey? : Reader String
  | '\x22' :: cs => basicFrom [] cs.length cs
  | '\x27' :: cs => literalFrom [] cs
  | cs =>
    match cs.takeWhile isBareKeyChar with
    | [] => none
    | key => some (String.ofList key, cs.dropWhile isBareKeyChar)

/-- A key with dots; the parts come in order and are at least one. -/
def keyPath? : Nat → Reader (List String)
  | 0, _ => none
  | fuel + 1, cs => do
    let (key, cs) ← simpleKey? (skipSpace cs)
    match skipSpace cs with
    | '.' :: rest =>
      let (more, rest) ← keyPath? fuel rest
      return (key :: more, rest)
    | cs => return ([key], cs)

/-- Puts a value where a key with dots leads to. -/
def insertAt (path : List String) (v : Value) (origin : TableOrigin) (entries : Entries) :
    Option (TableOrigin × Entries) := do
  let key ← path.getLast?
  modifyAt true (addValue (path.length ≠ 1) key v) path.dropLast origin entries

/-- A number, date, time or truth value. -/
def scalar? (cs : List Char) : Option (Value × List Char) :=
  let (run, rest) := scalarRun cs
  if run = "true".toList then some (.flag true, rest)
  else if run = "false".toList then some (.flag false, rest)
  else if isInteger run || isFloat run then some (.number, rest)
  else if isDateTime run then some (.moment, rest)
  else none

mutual
/-- A value; lists and inline tables nest to a depth of at most `depth`. -/
def value? (depth : Nat) : Nat → Reader Value
  | 0, _ | _, [] => none
  | fuel + 1, c :: cs =>
    if c = '[' then
      match depth with
      | 0 => none
      | depth + 1 => (skipLines cs.length cs).bind (items? depth [] fuel)
    else if c = '{' then
      match depth with
      | 0 => none
      | depth + 1 =>
        match skipSpace cs with
        | '}' :: rest => some (.inline [], rest)
        | cs => entries? depth [] fuel cs
    else if c = '\x22' || c = '\x27' then (string? (c :: cs)).map fun (s, rest) => (.text s, rest)
    else scalar? (c :: cs)
termination_by structural fuel => fuel

/-- The items of a list up to its bracket; `out` holds those before, reversed. -/
def items? (depth : Nat) (out : List Value) : Nat → Reader Value
  | 0, _ | _, [] => none
  | fuel + 1, c :: cs =>
    if c = ']' then some (.list out.reverse, cs)
    else
      match value? depth fuel (c :: cs) with
      | none => none
      | some (v, cs) =>
        match skipLines cs.length cs with
        | some (',' :: cs) =>
          match skipLines cs.length cs with
          | some cs => items? depth (v :: out) fuel cs
          | none => none
        | some (']' :: cs) => some (.list (v :: out).reverse, cs)
        | _ => none
termination_by structural fuel => fuel

/-- The entries of an inline table up to its brace. -/
def entries? (depth : Nat) (out : Entries) : Nat → Reader Value
  | 0, _ => none
  | fuel + 1, cs =>
    match keyPath? cs.length cs with
    | some (path, '=' :: cs) =>
      match value? depth fuel (skipSpace cs) with
      | none => none
      | some (v, cs) =>
        match insertAt path v .header out with
        | none => none
        | some (_, out) =>
          match skipSpace cs with
          | ',' :: cs => entries? depth out fuel cs
          | '}' :: cs => some (.inline out, cs)
          | _ => none
    | _ => none
termination_by structural fuel => fuel
end

/-- How deep lists and inline tables may nest. -/
def maxDepth : Nat := 79

/-- A document read so far: its entries and the path of the header in force. -/
structure Draft where
  entries : Entries
  header : List String

def Draft.change (d : Draft) (path : List String)
    (f : TableOrigin → Entries → Option (TableOrigin × Entries)) : Option Draft :=
  (modifyAt false f path .header d.entries).map fun (_, entries) => { d with entries := entries }

/-- Adds a value with its key under the header in force. -/
def Draft.add (d : Draft) (path : List String) (v : Value) : Option Draft :=
  d.change d.header (insertAt path v)

def Draft.openHeader (d : Draft) (path : List String) (repeated : Bool) : Option Draft := do
  let key ← path.getLast?
  let d ← d.change path.dropLast (if repeated then appendTable key else openTable key)
  return { d with header := path }

/-- Reads one line that holds a header or a key with its value. -/
def line? (d : Draft) (cs : List Char) : Option (Draft × List Char) :=
  match cs with
  | '[' :: '[' :: cs =>
    match keyPath? cs.length cs with
    | some (path, ']' :: ']' :: cs) => do return (← d.openHeader path true, ← lineEnd? cs)
    | _ => none
  | '[' :: cs =>
    match keyPath? cs.length cs with
    | some (path, ']' :: cs) => do return (← d.openHeader path false, ← lineEnd? cs)
    | _ => none
  | cs =>
    match keyPath? cs.length cs with
    | some (path, '=' :: cs) => do
      let (v, cs) ← value? maxDepth cs.length (skipSpace cs)
      return (← d.add path v, ← lineEnd? cs)
    | _ => none

def documentFrom (d : Draft) : Nat → List Char → Option Draft
  | 0, cs => if cs.isEmpty then some d else none
  | fuel + 1, cs =>
    match skipLines cs.length cs with
    | none => none
    | some [] => some d
    | some cs =>
      match line? d cs with
      | none => none
      | some (d, cs) => documentFrom d fuel cs

/-- The text without a byte order mark; a last line without a line end gets one. -/
def withLineEnd (text : String) : List Char :=
  let cs := text.toList
  let cs := if cs.head? = some '\ufeff' then cs.drop 1 else cs
  if cs.getLast?.any fun c => c ≠ '\n' && c ≠ '\r' then cs ++ ['\n'] else cs

/-- The entries of a document. -/
def parse? (text : String) : Option Entries :=
  let cs := withLineEnd text
  (documentFrom ⟨[], []⟩ (cs.length + 1) cs).map (·.entries)

end CodeAtlas.Toml
