import CodeAtlas.Script.Brace
import CodeAtlas.Script.Identifier
import CodeAtlas.Text.Lines

/-!
# Members of a class body

Counts the members of a body that are functions: methods, and fields whose value is a function.
A member can start where the body does and after each line end, `;` or `}` that is outside every
inner brace. What a member is, is decided from a window of limited size.
-/
namespace CodeAtlas.Script

/-- Bytes past its start in which a member must show what it is. -/
def memberWindow : Nat := 512

def methodModifiers : List String :=
  ["public", "private", "protected", "static", "async", "readonly", "abstract", "override",
    "declare", "get", "set"]

def fieldModifiers : List String :=
  ["public", "private", "protected", "static", "readonly", "override", "declare"]

/-- Words that can stand before `(` and are no method. -/
def nonMethodWords : List String :=
  ["if", "for", "while", "switch", "catch", "return", "new", "function", "class", "super",
    "typeof", "await", "yield", "delete", "void"]

/-- The rest after one of the words and the blanks behind it. -/
def modifier? (words : List String) (cs : List Char) : Option (List Char) :=
  match name? cs with
  | some (word, rest) => if words.contains (String.ofList word) then blanks? rest else none
  | none => none

theorem blanks?_length {cs rest : List Char} (h : blanks? cs = some rest) :
    rest.length < cs.length := by
  cases cs with
  | nil => simp [blanks?] at h
  | cons c cs =>
    simp only [blanks?, Option.ite_none_right_eq_some, Option.some.injEq] at h
    rw [← h.2, List.length_cons]
    exact Nat.lt_succ_of_le (List.dropWhile_sublist _).length_le

theorem name?_length {cs word rest : List Char} (h : name? cs = some (word, rest)) :
    rest.length < cs.length := by
  cases cs with
  | nil => simp [name?] at h
  | cons c cs =>
    simp only [name?, Option.ite_none_right_eq_some, Option.some.injEq, Prod.mk.injEq] at h
    rw [← h.2.2, List.length_cons]
    exact Nat.lt_succ_of_le (List.dropWhile_sublist _).length_le

theorem modifier?_length {words : List String} {cs rest : List Char}
    (h : modifier? words cs = some rest) : rest.length < cs.length := by
  unfold modifier? at h
  split at h
  · rename_i word r hn
    simp only [Option.ite_none_right_eq_some] at h
    exact Nat.lt_trans (blanks?_length h.2) (name?_length hn)
  · simp at h

/-- The text after each number of leading modifiers, most modifiers first, none last. -/
def afterModifiers (words : List String) (cs : List Char) : List (List Char) :=
  match _h : modifier? words cs with
  | some rest => afterModifiers words rest ++ [cs]
  | none => [cs]
termination_by cs.length
decreasing_by exact modifier?_length _h

/-- The rest after type parameters in angle brackets, if there are any. -/
def skipTypeParameters : List Char → List Char
  | '<' :: cs =>
    match cs.dropWhile fun c => c ≠ '>' && c ≠ '{' && c ≠ '}' with
    | '>' :: rest => rest
    | _ => '<' :: cs
  | cs => cs

/-- The name of a method that starts here, its modifiers already read. -/
def methodHere? (cs : List Char) : Option (List Char) :=
  match memberName? ((optionalChar '*' cs).dropWhile Text.isBlank) with
  | none => none
  | some (word, rest) =>
    let rest := (optionalChar '?' (rest.dropWhile Text.isBlank)).dropWhile Text.isBlank
    match (skipTypeParameters rest).dropWhile Text.isBlank with
    | '(' :: _ => some word
    | _ => none

def methodName? (cs : List Char) : Option (List Char) :=
  (afterModifiers methodModifiers cs).findSome? methodHere?

/-- The rest after a type annotation, if there is one: it ends before `=`, `;` or a brace. -/
def skipAnnotation : List Char → List Char
  | ':' :: cs => cs.dropWhile fun c => c ≠ '=' && c ≠ ';' && c ≠ '{' && c ≠ '}'
  | cs => cs

/-- The rest after the parameters of an arrow function: one name, or anything in parentheses. -/
def arrowParameters? : List Char → Option (List Char)
  | '(' :: cs =>
    match cs.dropWhile (· ≠ ')') with
    | _ :: rest => some rest
    | [] => none
  | cs => (name? cs).map (·.2)

def isArrowFunction (cs : List Char) : Bool :=
  match arrowParameters? cs with
  | none => false
  | some rest =>
    match skipAnnotation (rest.dropWhile Text.isBlank) with
    | '=' :: '>' :: _ => true
    | _ => false

def isFunctionWord (cs : List Char) : Bool :=
  match literal? "function".toList cs with
  | none => false
  | some rest => !Text.startsInsideWord rest

def isFunctionValue (cs : List Char) : Bool := isFunctionWord cs || isArrowFunction cs

/-- A function value, with or without `async` before it. -/
def isAsyncFunctionValue (cs : List Char) : Bool :=
  isFunctionValue cs || (modifier? ["async"] cs).any isFunctionValue

/-- Whether a field with a function for its value starts here, its modifiers already read. -/
def isFieldHere (cs : List Char) : Bool :=
  match memberName? cs with
  | none => false
  | some (_, rest) =>
    match skipAnnotation (rest.dropWhile Text.isBlank) with
    | '=' :: value => isAsyncFunctionValue (value.dropWhile Text.isBlank)
    | _ => false

def isFunctionField (cs : List Char) : Bool :=
  (afterModifiers fieldModifiers cs).any isFieldHere

/-- Whether a member that is a function starts here. -/
def isFunctionMember (cs : List Char) : Bool :=
  (methodName? cs).any (fun name => !nonMethodWords.contains (String.ofList name)) ||
    isFunctionField cs

/--
The places before `close` at which a member can start. `depth` counts the open braces, that of
the body included, and `pending` says that the next character that is no blank starts a member.
-/
def memberStartsFrom (close offset depth : Nat) (pending : Bool) (out : List Place) :
    List Char → List Place
  | [] => out.reverse
  | c :: rest =>
    if close ≤ offset then out.reverse
    else
      let blank := Text.isPlainBlank c
      let out := if pending && !blank then ⟨offset, c :: rest⟩ :: out else out
      let depth := if c = '{' then depth + 1 else if c = '}' then depth - 1 else depth
      let pending := (pending && blank) || (depth = 1 && (c = '\n' || c = ';' || c = '}'))
      memberStartsFrom close (offset + c.utf8Size) depth pending out rest

/-- The places inside the body with these braces at which a member can start. -/
def memberStarts (body : Place) (close : Nat) : List Place :=
  memberStartsFrom close (body.offset + 1) 1 true [] (body.rest.drop 1)

/-- What may be looked at to tell what kind of member starts at the place. -/
def Place.window (p : Place) (close : Nat) : List Char :=
  Text.takeBytes (min memberWindow (close - p.offset)) p.rest

def countMembers (body : Place) (close : Nat) : Nat :=
  (memberStarts body close).countP fun p => isFunctionMember (p.window close)

end CodeAtlas.Script
