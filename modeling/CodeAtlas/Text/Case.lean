import CodeAtlas.Text.CodeRange
import CodeAtlas.Text.CaseTable

/-!
# Letter case

`lower` and `upper` map whole texts: a letter may become several characters, and a capital sigma
that ends a word becomes the final small sigma. `capitalize` raises the first letter and lowers
the rest.
-/
namespace CodeAtlas.Text

/-- The other case of a character past ASCII, if the tables have one. -/
def otherCase? (runs : List CaseRun) (long : List (Nat × List Nat)) (c : Char) :
    Option (List Char) :=
  match long.lookup c.toNat with
  | some codes => some (codes.map Char.ofNat)
  | none =>
    (runs.find? fun r => r.covers c.toNat).map fun r => [Char.ofNat (r.other c.toNat)]

/-- The small form of one character, regardless of what stands around it. -/
def lowerChar (c : Char) : List Char :=
  if c.toNat < 128 then [c.toLower] else (otherCase? lowerRuns lowerLong c).getD [c]

/-- The capital form of one character. -/
def upperChar (c : Char) : List Char :=
  if c.toNat < 128 then [c.toUpper] else (otherCase? upperRuns upperLong c).getD [c]

def isCased (c : Char) : Bool :=
  if c.toNat < 128 then c.isAlpha else inRanges casedRanges c

def isCaseIgnorable (c : Char) : Bool :=
  if c.toNat < 128 then c = '\'' || c = '.' || c = ':' || c = '^' || c = '\x60'
  else inRanges caseIgnorableRanges c

/-- Whether the first character that is not case-ignorable is a letter with case. -/
def meetsCased (cs : List Char) : Bool :=
  match cs.dropWhile isCaseIgnorable with
  | [] => false
  | c :: _ => isCased c

/-- Lowers a text; `before` holds what precedes it, nearest first. -/
def lowerAfter (before : List Char) : List Char → List Char
  | [] => []
  | c :: rest =>
    if c = 'Σ' then
      (if meetsCased before && !meetsCased rest then 'ς' else 'σ') :: lowerAfter (c :: before) rest
    else lowerChar c ++ lowerAfter (c :: before) rest

def lower (s : String) : String := String.ofList (lowerAfter [] s.toList)

def upper (s : String) : String := String.ofList (s.toList.flatMap upperChar)

/-- The first letter raised, the others lowered. -/
def capitalize (s : String) : String :=
  match s.toList with
  | [] => ""
  | c :: rest => String.ofList (upperChar c ++ lowerAfter [] rest)

example : lower "ΑΣ Σ" = "ας σ" := by decide +kernel

end CodeAtlas.Text
