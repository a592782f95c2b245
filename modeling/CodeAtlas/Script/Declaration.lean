import CodeAtlas.Script.Brace
import CodeAtlas.Script.Identifier
import CodeAtlas.Text.Lines

/-!
# Class declarations

Finds the `class` keywords of a masked text that introduce a class, and the name each class goes
by: the variable or property it is assigned to, else the name after the keyword, else a name made
of its line.
-/
namespace CodeAtlas.Script

structure Declaration where
  name : String
  line : Nat
  /-- Just past the keyword and the name behind it. -/
  header : Place
  deriving DecidableEq, Repr

/-- Words that can follow the keyword of a class without a name. -/
def headerWords : List String := ["extends", "implements"]

/-- The name after the keyword and the place behind that name. -/
def declaredName? (after : Place) : Option (List Char × Place) :=
  match blanks? after.rest with
  | none => none
  | some rest =>
    match name? rest with
    | none => none
    | some (word, rest) =>
      if headerWords.contains (String.ofList word) then none
      else
        let blank := after.rest.takeWhile Text.isBlank
        some (word, ⟨after.offset + Text.byteSize blank + Text.byteSize word, rest⟩)

/--
The name that the class is assigned to, from the line before the keyword, reversed: the last part
of the dotted name before a final `=` or `:`.
-/
def assignedName? (before : List Char) : Option (List Char) :=
  match before.dropWhile Text.isBlank with
  | [] => none
  | c :: cs =>
    if c = ':' || c = '=' then
      let run := ((cs.dropWhile Text.isBlank).takeWhile isNamePart).reverse
      match run.dropWhile fun c => !isNameStart c with
      | [] => none
      | name => some name
    else none

/-- Characters that make `class` a property name when they stand before it. -/
def isMemberMark (c : Char) : Bool := c = '.' || c = '$' || c = '#'

/-- Characters that make `class` a name when they come next after it. -/
def endsName (c : Char) : Bool :=
  c = ':' || c = '=' || c = '(' || c = ')' || c = ',' || c = ';' || c = '.'

/-- Whether the keyword introduces a class between the reversed text before it and that after. -/
def introducesClass (before after : List Char) : Bool :=
  !Text.startsInsideWord before && !Text.startsInsideWord after &&
    !before.head?.any isMemberMark &&
    (Text.trimStart after).head?.any fun c => !endsName c

/-- The declaration whose keyword stands at the place, `before` being the line up to it, reversed. -/
def declarationAt? (starts : Array Nat) (before : List Char) (place : Place) :
    Option Declaration :=
  match place.rest with
  | 'c' :: 'l' :: 'a' :: 's' :: 's' :: rest =>
    if introducesClass before rest then
      let line := Text.lineOf starts place.offset
      let keywordEnd : Place := ⟨place.offset + 5, rest⟩
      let declared := declaredName? keywordEnd
      let name :=
        match assignedName? before, declared with
        | some name, _ => String.ofList name
        | none, some (name, _) => String.ofList name
        | none, none => "anonymous_L" ++ toString line
      some ⟨name, line, (declared.map (·.2)).getD keywordEnd⟩
    else none
  | _ => none

def declarationsFrom (starts : Array Nat) (offset : Nat) (before : List Char)
    (out : List Declaration) : List Char → List Declaration
  | [] => out.reverse
  | c :: rest =>
    let out :=
      match declarationAt? starts before ⟨offset, c :: rest⟩ with
      | some d => d :: out
      | none => out
    declarationsFrom starts (offset + c.utf8Size) (if c = '\n' then [] else c :: before) out rest

/-- The class declarations of a masked text in order. -/
def declarations (masked : List Char) : List Declaration :=
  declarationsFrom (Text.lineStarts masked).toArray 0 [] [] masked

end CodeAtlas.Script
