import CodeAtlas.Files.Change
import CodeAtlas.Text.Lines

/-!
# Bundles

A file tree as lines of text. The first character of a line says what the rest of it is: after `@`
the path of the current directory, after `/` that of a directory, after `=` that of a file and
after `>` that of a link. The content of a file and the target of a link stand in the lines after
it: after `|` a line of the content, after `:` a piece of it without a line end. Blank lines say
nothing.
-/
namespace CodeAtlas

inductive BundleItem where
  /-- The current directory. -/
  | current (p : Path)
  | entry (p : Path) (e : FileEntry)
  deriving DecidableEq

inductive BundleFault where
  /-- A line that says nothing here. -/
  | line (number : Nat)
  /-- An item that cannot be placed. -/
  | file (fault : FileFault)
  deriving DecidableEq, Repr

def BundleFault.message : BundleFault → String
  | line n => "line " ++ toString n ++ " of the bundle cannot be read"
  | file fault => "the bundle cannot be placed: " ++ fault.message

namespace BundleItem

/-- Takes one line after items that are kept in reverse order. -/
def takeLine? (items : List BundleItem) (line : List Char) : Option (List BundleItem) :=
  match line, items with
  | [], _ => some items
  | '@' :: p, _ => some (.current ⟨String.ofList p⟩ :: items)
  | '/' :: p, _ => some (.entry ⟨String.ofList p⟩ .directory :: items)
  | '=' :: p, _ => some (.entry ⟨String.ofList p⟩ (.file (.text "")) :: items)
  | '>' :: p, _ => some (.entry ⟨String.ofList p⟩ (.link ⟨""⟩) :: items)
  | '|' :: s, .entry p (.file (.text t)) :: rest =>
    some (.entry p (.file (.text (t ++ String.ofList s ++ "\n"))) :: rest)
  | ':' :: s, .entry p (.file (.text t)) :: rest =>
    some (.entry p (.file (.text (t ++ String.ofList s))) :: rest)
  | ':' :: s, .entry p (.link q) :: rest =>
    some (.entry p (.link ⟨q.text ++ String.ofList s⟩) :: rest)
  | _, _ => none

/-- The items of a bundle, in order. -/
def ofText (text : List Char) : Except BundleFault (List BundleItem) := do
  let items ← (Text.lines text).zipIdx.foldlM (fun items (line, i) =>
    match takeLine? items line with
    | some items => .ok items
    | none => .error (.line (i + 1))) []
  return items.reverse

/-- Lines for a text that is the content of a file. -/
def contentLines (text : List Char) : List String :=
  match (Text.fields '\n' text).reverse with
  | [] => []
  | last :: ended =>
    ended.reverse.map (fun line => String.ofList ('|' :: line)) ++
      if last.isEmpty then [] else [String.ofList (':' :: last)]

/-- The lines for an item; a file that is no text has none. -/
def toLines : BundleItem → List String
  | current p => ["@" ++ p.text]
  | entry p .directory => ["/" ++ p.text]
  | entry p (.file (.text s)) => ("=" ++ p.text) :: contentLines s.toList
  | entry _ (.file (.binary _)) => []
  | entry p (.link q) => [">" ++ p.text, ":" ++ q.text]

def place : BundleItem → Filing FileFault Unit
  | current p => Filing.enter p
  | entry p e => Filing.place p e

end BundleItem

namespace FileTree

def empty : FileTree := ⟨[], []⟩

/-- The tree that the items of a bundle make one after another. -/
def ofBundle (text : List Char) : Except BundleFault FileTree := do
  let items ← BundleItem.ofText text
  match Filing.perform (items.forM BundleItem.place) empty with
  | (.ok (), t) => return t
  | (.error e, _) => throw (.file e)

/-- What is new or has changed after `t`, in the order in which it was done. -/
def changesAfter (t after : FileTree) : List BundleItem :=
  (after.entries.filter fun e => t.find? e.1 ≠ some e.2).reverse.map fun e =>
    .entry e.1.path e.2

end FileTree
end CodeAtlas
