import CodeAtlas.Path

/-!
# Languages

The languages a source file can be written in, and how file extensions and the names people type
are read. Letter case never matters there.
-/
namespace CodeAtlas

inductive Language where
  | python
  | javaScript
  | typeScript
  deriving DecidableEq, Repr, Inhabited

namespace Language

/-- Every language, in the order in which lists of languages are given. -/
def all : List Language := [python, javaScript, typeScript]

def rank : Language → Nat
  | python => 0
  | javaScript => 1
  | typeScript => 2

def name : Language → String
  | python => "python"
  | javaScript => "javascript"
  | typeScript => "typescript"

def ofExtension? (ext : String) : Option Language :=
  match Text.lower ext with
  | "py" | "pyi" => some python
  | "js" | "jsx" | "mjs" | "cjs" => some javaScript
  | "ts" | "tsx" | "mts" | "cts" => some typeScript
  | _ => none

def ofPath? (p : Path) : Option Language := p.extension?.bind ofExtension?

/-- Reads a name as a person gives it. -/
def ofName? (name : String) : Option Language :=
  match Text.lower name with
  | "python" | "py" => some python
  | "javascript" | "js" => some javaScript
  | "typescript" | "ts" => some typeScript
  | _ => none

theorem ofName?_name (l : Language) : ofName? l.name = some l := by
  cases l <;> decide +kernel

/-- The languages that occur, each once, in the order of `all`. -/
def distinct (ls : List Language) : List Language := all.filter (· ∈ ls)

end Language
end CodeAtlas
