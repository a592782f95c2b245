import Std.Data.HashMap

/-!
# Braces

`matchBraces` pairs every `{` of a text with its `}` in one pass. A `}` that closes nothing is
passed over, and a `{` that is never closed has no partner.
-/
namespace CodeAtlas.Script

/-- A place in a text: its byte offset and what follows it. -/
structure Place where
  offset : Nat
  rest : List Char
  deriving DecidableEq, Repr, Inhabited

/-- `opens` are the offsets of the braces still open, innermost first. -/
def matchFrom (offset : Nat) (opens : List Nat) (pairs : Std.HashMap Nat Nat) :
    List Char → Std.HashMap Nat Nat
  | [] => pairs
  | c :: rest =>
    let next := offset + c.utf8Size
    if c = '{' then matchFrom next (offset :: opens) pairs rest
    else if c = '}' then
      match opens with
      | [] => matchFrom next [] pairs rest
      | o :: outer => matchFrom next outer (pairs.insert o offset) rest
    else matchFrom next opens pairs rest

/-- The offset of the closing brace for the offset of each opening brace that has one. -/
def matchBraces (text : List Char) : Std.HashMap Nat Nat := matchFrom 0 [] ∅ text

def openFrom? (offset : Nat) : List Char → Option Place
  | [] => none
  | c :: rest =>
    if c = '{' then some ⟨offset, c :: rest⟩ else openFrom? (offset + c.utf8Size) rest

def Place.open? (p : Place) : Option Place := openFrom? p.offset p.rest

end CodeAtlas.Script
