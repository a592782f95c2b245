import CodeAtlas.Text.Blank
import CodeAtlas.Text.Word

/-!
# Identifiers of scripts

Small readers for names and the marks around them. A reader takes from the front of a text and
gives back the rest, or nothing when the text does not begin as asked.
-/
namespace CodeAtlas.Script

/-- An ASCII letter, `_` or `$`. -/
def isNameStart (c : Char) : Bool := c.isAlpha || c = '_' || c = '$'

def isNamePart (c : Char) : Bool := Text.isWordChar c || c = '$'

def name? : List Char → Option (List Char × List Char)
  | [] => none
  | c :: rest =>
    if isNameStart c then some (c :: rest.takeWhile isNamePart, rest.dropWhile isNamePart)
    else none

/-- A name that may have `#` before it; the `#` is left out. -/
def memberName? : List Char → Option (List Char × List Char)
  | '#' :: rest => name? rest
  | cs => name? cs

def blanks? : List Char → Option (List Char)
  | [] => none
  | c :: rest => if Text.isBlank c then some (rest.dropWhile Text.isBlank) else none

def literal? : List Char → List Char → Option (List Char)
  | [], cs => some cs
  | _ :: _, [] => none
  | a :: as, c :: cs => if a = c then literal? as cs else none

/-- The rest after the character, or the whole text when it begins otherwise. -/
def optionalChar (a : Char) : List Char → List Char
  | [] => []
  | c :: cs => if c = a then cs else c :: cs

end CodeAtlas.Script
