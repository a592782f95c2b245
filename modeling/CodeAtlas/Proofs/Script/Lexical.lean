import Mathlib.Data.List.Infix
import CodeAtlas.Script.Mask

/-!
# The lexical grammar of scripts

A script is a sequence of items: characters of code, comments, strings and templates. A template
may contain interpolations, which are made of items again. Which characters an item may consist of
depends in part on the text after it, as where a slash would start a comment.
-/
namespace CodeAtlas.Script

/-- A character in a string or template, perhaps after a backslash. -/
inductive Piece where
  | plain (c : Char)
  | escaped (c : Char)
  deriving DecidableEq, Repr

mutual

inductive Item where
  | code (c : Char)
  /-- `ended` tells whether there is a line feed after it or the text ends there. -/
  | lineComment (body : List Char) (ended : Bool)
  | blockComment (body : List Char)
  /-- A string is closed by its quote or, if it is left open, by a line feed. -/
  | string (quote : Char) (pieces : List Piece) (closer : Char)
  | template (parts : List Part)

inductive Part where
  | piece (p : Piece)
  | interpolation (items : List Item)

end

/-! ### The text of items -/

def Piece.text : Piece → List Char
  | plain c => [c]
  | escaped c => ['\\', c]

mutual

def Item.text : Item → List Char
  | .code c => [c]
  | .lineComment body ended => ['/', '/'] ++ body ++ if ended then ['\n'] else []
  | .blockComment body => ['/', '*'] ++ body ++ ['*', '/']
  | .string quote pieces closer => [quote] ++ pieces.flatMap Piece.text ++ [closer]
  | .template parts => ['\x60'] ++ partsText parts ++ ['\x60']

def Part.text : Part → List Char
  | .piece p => p.text
  | .interpolation items => ['$', '{'] ++ itemsText items ++ ['}']

def itemsText : List Item → List Char
  | [] => []
  | item :: items => item.text ++ itemsText items

def partsText : List Part → List Char
  | [] => []
  | part :: parts => part.text ++ partsText parts

end

/-! ### What may stand where -/

def Piece.fitsString (quote : Char) : Piece → Bool
  | plain c => c ≠ quote ∧ c ≠ '\\' ∧ c ≠ '\n'
  | escaped _ => true

def Piece.fitsTemplate (rest : List Char) : Piece → Bool
  | plain c => c ≠ '\x60' ∧ c ≠ '\\' ∧ ¬ (c = '$' ∧ rest.head? = some '{')
  | escaped _ => true

/-- How many braces are open after the code among the items; none if one too many is closed. -/
def depthAfter (depth : Nat) : List Item → Option Nat
  | [] => some depth
  | .code c :: items =>
    if c = '{' then depthAfter (depth + 1) items
    else if c = '}' then if depth = 0 then none else depthAfter (depth - 1) items
    else depthAfter depth items
  | _ :: items => depthAfter depth items

mutual

def Item.fits (rest : List Char) : Item → Bool
  | .code c => c ∉ ['\x22', '\x27', '\x60'] ∧
      ¬ (c = '/' ∧ (rest.head? = some '/' ∨ rest.head? = some '*'))
  | .lineComment body ended => '\n' ∉ body ∧ (ended ∨ rest = [])
  | .blockComment body => ¬ ['*', '/'] <:+: body
  | .string quote pieces closer => quote ∈ ['\x22', '\x27'] ∧
      (∀ p ∈ pieces, p.fitsString quote) ∧ closer ∈ [quote, '\n']
  | .template parts => partsFit ('\x60' :: rest) parts

def Part.fits (rest : List Char) : Part → Bool
  | .piece p => p.fitsTemplate rest
  | .interpolation items => itemsFit ('}' :: rest) items ∧ depthAfter 0 items = some 0

def itemsFit (rest : List Char) : List Item → Bool
  | [] => true
  | item :: items => item.fits (itemsText items ++ rest) && itemsFit rest items

def partsFit (rest : List Char) : List Part → Bool
  | [] => true
  | part :: parts => part.fits (partsText parts ++ rest) && partsFit rest parts

end

def isScript (items : List Item) : Bool := itemsFit [] items

/-! ### What masking leaves of items -/

def blanks (cs : List Char) : List Char := cs.flatMap blank

@[simp]
theorem blanks_nil : blanks [] = [] := rfl

@[simp]
theorem blanks_cons (c : Char) (cs : List Char) : blanks (c :: cs) = blank c ++ blanks cs := rfl

@[simp]
theorem blanks_append (cs ds : List Char) : blanks (cs ++ ds) = blanks cs ++ blanks ds :=
  List.flatMap_append

/-- An item outside all templates, with only its code and the quotes around it left. -/
def Item.masked : Item → List Char
  | .code c => [c]
  | .lineComment body ended => blanks (Item.lineComment body ended).text
  | .blockComment body => blanks (Item.blockComment body).text
  | .string quote pieces closer => [quote] ++ blanks (pieces.flatMap Piece.text) ++ [closer]
  | .template parts => ['\x60'] ++ blanks (partsText parts) ++ ['\x60']

end CodeAtlas.Script
