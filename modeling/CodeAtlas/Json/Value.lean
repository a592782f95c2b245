/-!
# JSON values

Values whose numbers are naturals, and their text over several lines: two blanks for each level
and one entry on each line.
-/
namespace CodeAtlas

inductive JsonValue where
  | null
  | flag (b : Bool)
  | number (n : Nat)
  | text (s : String)
  | list (xs : List JsonValue)
  /-- Fields in the order in which they are written. -/
  | record (fields : List (String × JsonValue))
  deriving Repr

namespace JsonValue

def hexDigit (n : Nat) : Char := "0123456789abcdef".toList.getD n '0'

/-- Control characters, quotes and backslashes are escaped, nothing else is. -/
def escapeChar (c : Char) : List Char :=
  if c = '\x22' then ['\\', '\x22']
  else if c = '\\' then ['\\', '\\']
  else if c = '\n' then ['\\', 'n']
  else if c = '\r' then ['\\', 'r']
  else if c = '\t' then ['\\', 't']
  else if c = '\x08' then ['\\', 'b']
  else if c = '\x0c' then ['\\', 'f']
  else if c.toNat < 0x20 then
    ['\\', 'u', '0', '0', hexDigit (c.toNat / 16), hexDigit (c.toNat % 16)]
  else [c]

def quote (s : String) : String := "\"" ++ String.ofList (s.toList.flatMap escapeChar) ++ "\""

def newLine (depth : Nat) : String := "\n" ++ String.ofList (List.replicate (2 * depth) ' ')

mutual
/-- The text of a value that stands `depth` levels deep. -/
def prettyAt (depth : Nat) : JsonValue → String
  | null => "null"
  | flag b => if b then "true" else "false"
  | number n => toString n
  | text s => quote s
  | list [] => "[]"
  | list (x :: xs) =>
    "[" ++ newLine (depth + 1) ++ prettyAt (depth + 1) x ++ prettyItems (depth + 1) xs ++
      newLine depth ++ "]"
  | record [] => "\x7b\x7d"
  | record ((k, v) :: fields) =>
    "\x7b" ++ newLine (depth + 1) ++ quote k ++ ": " ++ prettyAt (depth + 1) v ++
      prettyFields (depth + 1) fields ++ newLine depth ++ "\x7d"

/-- Further items, each after a comma. -/
def prettyItems (depth : Nat) : List JsonValue → String
  | [] => ""
  | x :: xs => "," ++ newLine depth ++ prettyAt depth x ++ prettyItems depth xs

/-- Further fields, each after a comma. -/
def prettyFields (depth : Nat) : List (String × JsonValue) → String
  | [] => ""
  | (k, v) :: fields =>
    "," ++ newLine depth ++ quote k ++ ": " ++ prettyAt depth v ++ prettyFields depth fields
end

def pretty (v : JsonValue) : String := prettyAt 0 v

def texts (xs : List String) : JsonValue := list (xs.map text)

end JsonValue
end CodeAtlas
