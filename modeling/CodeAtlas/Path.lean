import CodeAtlas.Text.Fields
import CodeAtlas.Text.Case

/-!
# Paths

A path keeps the text it was written with; its meaning is its list of components. Doubled
slashes, a slash at the end and `.` anywhere but at the front add no component. Paths are
compared component by component.
-/
namespace CodeAtlas

inductive Component where
  | root
  | current
  | parent
  | normal (name : String)
  deriving DecidableEq, Repr

/-- A part of the text between slashes, with the component it stands for, if any. -/
def Component.ofField? (isFirst : Bool) (field : List Char) : Option Component :=
  match field with
  | [] => none
  | ['.'] => if isFirst then some .current else none
  | ['.', '.'] => some .parent
  | cs => some (.normal (String.ofList cs))

namespace Component

def rank : Component → Nat
  | root => 0
  | current => 1
  | parent => 2
  | normal _ => 3

def name : Component → String
  | normal s => s
  | _ => ""

/-- The root comes first, then `.`, then `..`, then names in the order of their characters. -/
def cmp (a b : Component) : Ordering :=
  (compare a.rank b.rank).then (compare a.name b.name)

def text : Component → String
  | root => "/"
  | current => "."
  | parent => ".."
  | normal s => s

def normal? : Component → Option String
  | normal s => some s
  | _ => none

theorem normal?_eq_some {c : Component} {s : String} : c.normal? = some s ↔ c = normal s := by
  cases c <;> simp [normal?]

end Component

structure Path where
  text : String
  deriving DecidableEq, Repr, Inhabited

namespace Path

def isAbsolute (p : Path) : Bool := p.text.toList.head? = some '/'

/-- The components below the root; `isFirst` holds for the first field of a relative path. -/
def bodyComponents (isFirst : Bool) : List (List Char) → List Component
  | [] => []
  | f :: fs =>
    match Component.ofField? isFirst f with
    | some c => c :: bodyComponents false fs
    | none => bodyComponents false fs

def components (p : Path) : List Component :=
  let body := Text.fields '/' p.text.toList
  if p.isAbsolute then .root :: bodyComponents false body else bodyComponents true body

def cmpComponents : List Component → List Component → Ordering
  | [], [] => .eq
  | [], _ :: _ => .lt
  | _ :: _, [] => .gt
  | a :: as, b :: bs => (a.cmp b).then (cmpComponents as bs)

def cmp (p q : Path) : Ordering := cmpComponents p.components q.components

/-- Whether two paths have the same components, however they are written. -/
def same (p q : Path) : Bool := p.components = q.components

/-- The names among the components, without root, `.` and `..`. -/
def names (p : Path) : List String := p.components.filterMap Component.normal?

/-- The last component, if it is a name. -/
def fileName? (p : Path) : Option String := p.components.getLast?.bind Component.normal?

/-- Splits a reversed file name at its last dot, into the reversed extension and what is before. -/
def splitDot (reversed : List Char) : Option (List Char × List Char) :=
  match reversed.dropWhile (· ≠ '.') with
  | [] => none
  | _ :: before => some (reversed.takeWhile (· ≠ '.'), before)

/-- What follows the last dot of the file name, unless the name starts with that dot. -/
def extension? (p : Path) : Option String :=
  p.fileName?.bind fun name =>
    match splitDot name.toList.reverse with
    | some (ext, _ :: _) => some (String.ofList ext.reverse)
    | _ => none

def ofFields (fields : List (List Char)) : String :=
  String.ofList (['/'].intercalate fields)

/-- Drops from the front of the reversed fields those that stand for no component. -/
def dropVoid (isAbsolute : Bool) : List (List Char) → List (List Char)
  | [] => []
  | f :: fs =>
    if (Component.ofField? (fs.isEmpty && !isAbsolute) f).isSome then f :: fs
    else dropVoid isAbsolute fs

/-- The path without its last component, written as before up to there. -/
def parent? (p : Path) : Option Path :=
  match p.components.getLast? with
  | none | some .root => none
  | some _ =>
    let fields := dropVoid p.isAbsolute (Text.fields '/' p.text.toList).reverse
    match dropVoid p.isAbsolute (fields.drop 1) with
    | [] => some ⟨if p.isAbsolute then "/" else ""⟩
    | fs => some ⟨ofFields fs.reverse⟩

/-- `q` seen from `p`; an absolute `q` stands for itself. -/
def join (p q : Path) : Path :=
  if q.isAbsolute then q
  else if p.text.isEmpty || p.text.toList.getLast? = some '/' then ⟨p.text ++ q.text⟩
  else ⟨p.text ++ "/" ++ q.text⟩

def startsWith (p base : Path) : Bool := base.components.isPrefixOf p.components

def below? (p base : Path) : Option (List Component) :=
  if p.startsWith base then some (p.components.drop base.components.length) else none

def ofNames (names : List String) : Path := ⟨"/".intercalate names⟩

end Path
end CodeAtlas
