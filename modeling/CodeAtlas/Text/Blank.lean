import CodeAtlas.Text.CodeRange

/-!
# Blanks

White space in the wide sense: every character with the white space property, of which ASCII has
six. `isPlainBlank` is the narrow sense, five ASCII characters without the vertical tab.
-/
namespace CodeAtlas.Text

def blankRanges : List (Nat × Nat) := [
  (0x9, 0xD), (0x20, 0x20), (0x85, 0x85), (0xA0, 0xA0), (0x1680, 0x1680), (0x2000, 0x200A),
  (0x2028, 0x2029), (0x202F, 0x202F), (0x205F, 0x205F), (0x3000, 0x3000)]

def isBlank (c : Char) : Bool := inRanges blankRanges c

/-- Space, tab, line feed, form feed and carriage return. -/
def isPlainBlank (c : Char) : Bool :=
  c = ' ' || c = '\t' || c = '\n' || c = '\x0c' || c = '\r'

/-- The text without the blanks it starts with. -/
def trimStart (cs : List Char) : List Char := cs.dropWhile isBlank

/-- The text without the blanks at either end. -/
def trim (cs : List Char) : List Char :=
  ((trimStart cs).reverse.dropWhile isBlank).reverse

/-- Whether there is nothing but blanks. -/
def allBlank (cs : List Char) : Bool := cs.all isBlank

end CodeAtlas.Text
