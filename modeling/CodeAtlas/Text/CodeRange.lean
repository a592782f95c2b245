/-!
# Sets of characters given by ranges

A character property is a list of ranges of code points. `inRanges` decides membership.
-/
namespace CodeAtlas.Text

/-- Whether the character's code point lies in one of the ranges, ends included. -/
def inRanges (ranges : List (Nat × Nat)) (c : Char) : Bool :=
  ranges.any fun r => r.1 ≤ c.toNat && c.toNat ≤ r.2

end CodeAtlas.Text
