import CodeAtlas.Python.Classes
import CodeAtlas.Script.Classes

/-!
# Analyzers

An analyzer reads the files of one language, known by their extensions. In a registry the analyzer
that was added last goes before all others for the same extension or language.
-/
namespace CodeAtlas

structure Analyzer where
  language : Language
  extensions : List String
  analyze : SourceFile → Analysis

namespace Analyzer

def python : Analyzer := ⟨.python, ["py", "pyi"], Python.analyze⟩

def javaScript : Analyzer := ⟨.javaScript, ["js", "jsx", "mjs", "cjs"], Script.analyze⟩

def typeScript : Analyzer := ⟨.typeScript, ["ts", "tsx", "mts", "cts"], Script.analyze⟩

end Analyzer

/-- Analyzers in the order in which they were added. -/
structure Registry where
  analyzers : List Analyzer

namespace Registry

def empty : Registry := ⟨[]⟩

def default : Registry := ⟨[.python, .javaScript, .typeScript]⟩

def register (r : Registry) (a : Analyzer) : Registry := ⟨r.analyzers ++ [a]⟩

/-- The analyzer for a path's extension in small letters. -/
def find? (r : Registry) (p : Path) : Option Analyzer :=
  match p.extension? with
  | none => none
  | some ext => r.analyzers.reverse.find? fun a => a.extensions.contains (Text.lower ext)

def forLanguage? (r : Registry) (l : Language) : Option Analyzer :=
  r.analyzers.reverse.find? fun a => a.language = l

/-- Every extension in small letters, with the language of the analyzer added last for it. -/
def extensionMap (r : Registry) : List (String × Language) :=
  (r.analyzers.flatMap fun a => a.extensions.map fun e => (Text.lower e, a.language)).foldl
    (fun kept e => kept.filter (fun k => k.1 ≠ e.1) ++ [e]) []

def languages (r : Registry) : List Language := Language.distinct (r.analyzers.map (·.language))

def supportedExtensions (r : Registry) : List String := r.analyzers.flatMap (·.extensions)

/-- Reads a file by the analyzer for its extension, else by that for its language. -/
def analyze (r : Registry) (f : SourceFile) : Analysis :=
  match (r.find? f.path).or (r.forLanguage? f.language) with
  | some a => a.analyze f
  | none => .empty

end Registry
end CodeAtlas
