/-!
# Rounding quotients

`roundDiv` rounds a quotient to the nearest natural number, a half to the even neighbour.
`Fraction.rounded` keeps the 53 significant bits of a double.
-/
namespace CodeAtlas.Number

/-- The quotient to the nearest natural number; a half goes to the even neighbour. -/
def roundDiv (num den : Nat) : Nat :=
  let q := num / den
  let twice := 2 * (num % den)
  if twice < den then q
  else if den < twice then q + 1
  else q + q % 2

/-- A quotient of natural numbers, `den` not being zero. -/
structure Fraction where
  num : Nat
  den : Nat
  deriving DecidableEq, Repr

namespace Fraction

def div (a b : Fraction) : Fraction := ⟨a.num * b.den, a.den * b.num⟩

/-- The quotient times `2 ^ k`. -/
def shift (a : Fraction) (k : Int) : Fraction :=
  if 0 ≤ k then ⟨a.num <<< k.toNat, a.den⟩ else ⟨a.num, a.den <<< (-k).toNat⟩

/-- The power of two that brings a positive quotient to 53 binary digits before the point. -/
def scale (a : Fraction) : Int :=
  let k : Int := 52 + (a.den.log2 : Int) - (a.num.log2 : Int)
  let moved := a.shift k
  if moved.num / moved.den < 1 <<< 52 then k + 1 else k

/-- The nearest fraction with 53 significant bits, ties to even. -/
def rounded (a : Fraction) : Fraction :=
  if a.num = 0 then ⟨0, 1⟩
  else
    let k := a.scale
    let moved := a.shift k
    shift ⟨roundDiv moved.num moved.den, 1⟩ (-k)

/-- The fraction in decimal with one place, a half to the even neighbour. -/
def oneDecimal (a : Fraction) : String :=
  let tenths := roundDiv (a.num * 10) a.den
  toString (tenths / 10) ++ "." ++ toString (tenths % 10)

end Fraction

/-- The average of a total over a count in double precision, with one decimal place. -/
def averageText (total count : Nat) : String :=
  if count = 0 then "0.0"
  else ((Fraction.rounded ⟨total, 1⟩).div (Fraction.rounded ⟨count, 1⟩)).rounded.oneDecimal

example : averageText 23 3 = "7.7" ∧ averageText 3 4 = "0.8" ∧ averageText 5 4 = "1.2" := by
  decide +kernel

end CodeAtlas.Number
