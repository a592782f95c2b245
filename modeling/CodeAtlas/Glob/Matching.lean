import CodeAtlas.Glob.Pattern

/-!
# Matching paths

Decides whether a path fits the tokens of a pattern. A slash is matched by a slash or by `**`
only, and letter case counts.
-/
namespace CodeAtlas.Glob

/-- `short` says that the text has ended too early for the pattern to fit at any later place. -/
inductive Fit where
  | fits
  | differs
  | short
  deriving DecidableEq, Repr

def CharSet.contains : CharSet → Char → Bool
  | single a, c => a = c
  | range a b, c => a ≤ c && c ≤ b

/-- Whether a token that stands for a single character fits this one. -/
def Token.fitsChar : Token → Char → Bool
  | literal a, c => a = c
  | anyChar, c => c ≠ '/'
  | within sets, c => c ≠ '/' && sets.any (·.contains c)
  | outside sets, c => c ≠ '/' && !sets.any (·.contains c)
  | _, _ => false

/--
Goes on after a wildcard: `next` tells how the tokens behind it fit the rest. A run of characters
ends before a slash, a run of parts only after one or at the end.
-/
def fitAfter (next : List Char → Fit) (parts : Bool) : List Char → Fit
  | [] => next []
  | c :: cs =>
    if parts && c ≠ '/' then fitAfter next parts cs
    else if !parts && c = '/' then .differs
    else
      match next cs with
      | .differs => fitAfter next parts cs
      | f => f

def fit : List Token → List Char → Fit
  | [], cs => if cs.isEmpty then .fits else .differs
  | t :: ts, cs =>
    if t = .anyRun || t = .anyParts then
      match fit ts cs with
      | .differs => fitAfter (fit ts) (t = .anyParts) cs
      | f => f
    else
      match cs with
      | [] => .short
      | c :: rest => if t.fitsChar c then fit ts rest else .differs

def accepts (pattern : List Token) (path : String) : Bool := fit pattern path.toList = .fits

end CodeAtlas.Glob
