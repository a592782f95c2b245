import CodeAtlas.Files.Fault

/-!
# File trees

A tree of directories, files and links as a plain value. An entry is known by its location, the
names that lead to it from the topmost directory. Reading back what `put` wrote gives the entry
written, and `put` changes no other location.
-/
namespace CodeAtlas

inductive FileContent where
  | text (s : String)
  /-- Bytes that are not the encoding of any text. -/
  | binary (bytes : List UInt8)
  deriving DecidableEq

def FileContent.ofBytes (bytes : ByteArray) : FileContent :=
  match String.fromUTF8? bytes with
  | some s => text s
  | none => binary bytes.toList

inductive FileEntry where
  | directory
  | file (content : FileContent)
  | link (target : Path)
  deriving DecidableEq

/-- The names from the topmost directory down. -/
abbrev Location := List String

def Location.path (l : Location) : Path := ⟨"/" ++ "/".intercalate l⟩

structure FileTree where
  /-- What there is, apart from the topmost directory; of two entries at one place the first counts. -/
  entries : List (Location × FileEntry)
  /-- The directory that relative paths start from. -/
  current : Location
  deriving DecidableEq

namespace FileTree

def find? (t : FileTree) (l : Location) : Option FileEntry :=
  if l.isEmpty then some .directory else t.entries.lookup l

def isDirectory (t : FileTree) (l : Location) : Bool := t.find? l = some .directory

/-- Puts an entry in the place of what is at a location. -/
def put (t : FileTree) (l : Location) (e : FileEntry) : FileTree :=
  { t with entries := (l, e) :: t.entries.filter fun old => old.1 ≠ l }

/-- The tree without a location and all below it. -/
def erase (t : FileTree) (l : Location) : FileTree :=
  { t with entries := t.entries.filter fun old => !l.isPrefixOf old.1 }

theorem find?_put_self (t : FileTree) {l : Location} (h : l ≠ []) (e : FileEntry) :
    (t.put l e).find? l = some e := by
  simp [find?, put, h]

theorem lookup_discard {l m : Location} (h : l ≠ m) (es : List (Location × FileEntry)) :
    (es.filter fun old => old.1 ≠ m).lookup l = es.lookup l := by
  induction es with
  | nil => rfl
  | cons e es ih => by_cases hm : e.1 = m <;> grind

theorem find?_put_of_ne (t : FileTree) {l m : Location} (h : l ≠ m) (e : FileEntry) :
    (t.put m e).find? l = t.find? l := by
  have hl : (l == m) = false := by simp [h]
  simp [find?, put, List.lookup_cons, hl, ← lookup_discard h t.entries]

/-- The names of the entries right below a location, in order. -/
def childNames (t : FileTree) (l : Location) : List String :=
  ((t.entries.filterMap fun e => if e.1.dropLast = l then e.1.getLast? else none).eraseDups).mergeSort
    fun a b => a ≤ b

end FileTree

end CodeAtlas
