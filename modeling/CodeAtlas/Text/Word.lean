import CodeAtlas.Text.CodeRange
import CodeAtlas.Text.WordTable

/-!
# Words

`isWordChar` holds of the characters that words of running text are made of. A boundary lies
between a word character and anything else; `startsInsideWord` asks for the side after it.
-/
namespace CodeAtlas.Text

def isWordChar (c : Char) : Bool :=
  if c.toNat < 128 then c.isAlphanum || c = '_' else inRanges wordRanges c

/-- Whether the text begins with a word character. -/
def startsInsideWord : List Char → Bool
  | [] => false
  | c :: _ => isWordChar c

theorem isWordChar_of_isAlphanum {c : Char} (h : c.isAlphanum = true) : isWordChar c = true := by
  have hc : c.toNat < 128 := by
    delta Char.isAlphanum Char.isAlpha Char.isUpper Char.isLower Char.isDigit at h
    simp only [Bool.or_eq_true, Bool.and_eq_true, decide_eq_true_eq] at h
    rcases h with (⟨_, h⟩ | ⟨_, h⟩) | ⟨_, h⟩ <;> exact Nat.lt_of_le_of_lt h (by decide)
  simp [isWordChar, hc, h]

end CodeAtlas.Text
