import CodeAtlas.Path

/-!
# Keys of modules

A module is known by the names of the directories that lead to it, in small letters: directories
that differ in letter case only are one module. Keys are ordered name by name.
-/
namespace CodeAtlas

abbrev ModuleKey := List String

namespace ModuleKey

/-- The key for directory names as they are spelled. -/
def ofNames (names : List String) : ModuleKey := names.map Text.lower

def text (k : ModuleKey) : String := "/".intercalate k

def cmp : ModuleKey → ModuleKey → Ordering
  | [], [] => .eq
  | [], _ :: _ => .lt
  | _ :: _, [] => .gt
  | a :: as, b :: bs => (compare a b).then (cmp as bs)

theorem ofNames_take (names : List String) (n : Nat) :
    ofNames (names.take n) = (ofNames names).take n := by
  simp [ofNames, List.map_take]

theorem length_ofNames (names : List String) : (ofNames names).length = names.length := by
  simp [ofNames]

end ModuleKey

/-- Puts an element into an ordered list, unless an equal one is there already. -/
def insertInOrder {α : Type} (cmp : α → α → Ordering) (a : α) : List α → List α
  | [] => [a]
  | b :: rest =>
    match cmp a b with
    | .lt => a :: b :: rest
    | .eq => b :: rest
    | .gt => b :: insertInOrder cmp a rest

end CodeAtlas
