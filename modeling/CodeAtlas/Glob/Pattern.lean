/-!
# Glob patterns

A pattern is read into tokens once. `?` stands for a character, `*` for any run of them, and `**`
as a whole part of a path for any run of parts; square brackets hold a set of characters.
-/
namespace CodeAtlas.Glob

/-- One character, or all from a first to a last. -/
inductive CharSet where
  | single (c : Char)
  | range (first last : Char)
  deriving DecidableEq, Repr

inductive Token where
  | literal (c : Char)
  | anyChar
  /-- Any run of characters. -/
  | anyRun
  /-- Any run of whole parts of a path. -/
  | anyParts
  | within (sets : List CharSet)
  | outside (sets : List CharSet)
  deriving DecidableEq, Repr

/-- What is wrong with a pattern. -/
inductive PatternFault where
  /-- More than two stars in a row. -/
  | tooManyStars
  /-- Two stars that are not a whole part of a path. -/
  | partialParts
  /-- An opening bracket without a set after it. -/
  | badSet
  deriving DecidableEq, Repr

/-- A fault and the number of characters before it. -/
structure PatternError where
  position : Nat
  fault : PatternFault
  deriving DecidableEq, Repr

def PatternFault.text : PatternFault → String
  | tooManyStars => "wildcards are either regular \x60*\x60 or recursive \x60**\x60"
  | partialParts => "recursive wildcards must form a single path component"
  | badSet => "invalid range pattern"

def PatternError.message (e : PatternError) : String :=
  "Pattern syntax error near position " ++ toString e.position ++ ": " ++ e.fault.text

/-- The sets between two brackets: `a-z` is a range, all else stands for itself. -/
def charSets : List Char → List CharSet
  | [] => []
  | a :: '-' :: b :: rest => .range a b :: charSets rest
  | a :: rest => .single a :: charSets rest

/-- Splits before the first `]`, which is left out. -/
def untilBracket? (cs : List Char) : Option (List Char × List Char) :=
  match cs.dropWhile (· ≠ ']') with
  | [] => none
  | _ :: rest => some (cs.takeWhile (· ≠ ']'), rest)

/-- The set after an opening bracket, and the rest; its first character may be `]`. -/
def bracketSet? : List Char → Option (Token × List Char)
  | '!' :: c :: rest =>
    (untilBracket? rest).map fun (cs, after) => (.outside (charSets (c :: cs)), after)
  | ['!'] => none
  | c :: rest =>
    (untilBracket? rest).map fun (cs, after) => (.within (charSets (c :: cs)), after)
  | [] => none

/-- Adds `**` to the reversed tokens, unless it repeats one that others stand before. -/
def pushParts (out : List Token) : List Token :=
  match out with
  | .anyParts :: _ :: _ => out
  | _ => .anyParts :: out

/--
Reads on at a position, `before` being the character there before it; `out` holds the tokens so
far, reversed. Each round takes at least one character.
-/
def readFrom (position : Nat) (before : Option Char) (out : List Token) :
    Nat → List Char → Except PatternError (List Token)
  | 0, _ | _, [] => .ok out.reverse
  | fuel + 1, c :: rest =>
    if c = '?' then readFrom (position + 1) (some c) (.anyChar :: out) fuel rest
    else if c = '*' then
      let stars := 1 + (rest.takeWhile (· = '*')).length
      let after := rest.dropWhile (· = '*')
      if 2 < stars then .error ⟨position + 2, .tooManyStars⟩
      else if stars = 1 then readFrom (position + 1) (some c) (.anyRun :: out) fuel after
      else if before.any (· ≠ '/') then .error ⟨position - 1, .partialParts⟩
      else
        match after with
        | [] => .ok (pushParts out).reverse
        | d :: more =>
          if d = '/' then readFrom (position + 3) (some d) (pushParts out) fuel more
          else .error ⟨position + 2, .partialParts⟩
    else if c = '[' then
      match bracketSet? rest with
      | none => .error ⟨position, .badSet⟩
      | some (t, after) =>
        readFrom (position + 1 + (rest.length - after.length)) (some ']') (t :: out) fuel after
    else readFrom (position + 1) (some c) (.literal c :: out) fuel rest

/-- The tokens of a pattern. -/
def parse (text : String) : Except PatternError (List Token) :=
  readFrom 0 none [] text.length text.toList

end CodeAtlas.Glob
