import CodeAtlas.Proofs.Module.PathNames

/-!
# Finding modules by their paths

A module is found by its path, in whatever letter case and with whatever slashes around it, and by
nothing else. For without regard to letter case its path is the text of its key, in which all
modules differ.
-/
namespace CodeAtlas

/-- A path as it is looked up: without slashes at its ends and in small letters. -/
def foldedPath (path : String) : String :=
  Text.lower (String.ofList (Text.trimChar '/' path.toList))

/-- Whether a module of the tree is found by the texts that are its path but for letter case and
slashes at the ends, and by no other text, so that no two paths differ in letter case only. -/
structure FoundByPath (t : ModuleTree) : Prop where
  find?_eq_some_iff : ∀ {q : String} {n : ModuleNode}, t.find? q = some n ↔
    ∃ i < t.size, t.get i = n ∧ foldedPath q = foldedPath n.path
  path_inj : ∀ {i j : Nat}, i < t.size → j < t.size →
    Text.lower (t.get i).path = Text.lower (t.get j).path → i = j

theorem Path.trimChar_ofNames {names : List String} (h : ∀ s ∈ names, IsName s) :
    Text.trimChar '/' (ofNames names).text.toList = (ofNames names).text.toList := by
  cases names with
  | nil => rfl
  | cons s names =>
    apply Text.trimChar_eq_self
    rw [fields_ofNames (List.cons_ne_nil s names) h]
    exact nil_not_mem_map_toList h

namespace ModuleNode.HasNames
variable {n : ModuleNode} {names : List String}

theorem lower_path (h : n.HasNames names) : Text.lower n.path = n.key.text := by
  rw [h.path_eq, Text.lower_intercalate, ← h.key_eq]
  rfl

theorem foldedPath_path (h : n.HasNames names) : foldedPath n.path = n.key.text := by
  have htrim : Text.trimChar '/' n.path.toList = n.path.toList := by
    rw [h.path_eq]
    exact Path.trimChar_ofNames h.isModulePath.isName
  simp [foldedPath, htrim, h.lower_path]

end ModuleNode.HasNames

theorem ModuleTree.find?_eq_findKey? (t : ModuleTree) (q : String) :
    t.find? q = t.findKey? (foldedPath q) := rfl

theorem ModuleTree.exists_of_findKey? {t : ModuleTree} {keyText : String} {n : ModuleNode}
    (h : t.findKey? keyText = some n) : ∃ i < t.size, t.get i = n ∧ n.key.text = keyText := by
  have hkey : n.key.text = keyText := by simpa using Array.find?_some h
  have hmem : n ∈ t.nodes.toList := Array.mem_toList_iff.2 (Array.mem_of_find?_eq_some h)
  rw [t.toList_eq_map] at hmem
  obtain ⟨i, hi, rfl⟩ := List.mem_map.1 hmem
  exact ⟨i, List.mem_range.1 hi, rfl, hkey⟩

section Built
variable {rootPaths : List Path} {classes : List ClassInfo} {t : ModuleTree}

theorem Built.foundByPath (hb : Built (ModuleRoot.ofPaths rootPaths) classes t) (hs : Spelled t) :
    FoundByPath t := by
  constructor
  case find?_eq_some_iff =>
    intro q n
    rw [t.find?_eq_findKey?]
    constructor
    · intro hfound
      obtain ⟨i, hi, rfl, hkey⟩ := ModuleTree.exists_of_findKey? hfound
      exact ⟨i, hi, rfl, by rw [(hs.hasNames hi).foldedPath_path, hkey]⟩
    · rintro ⟨i, hi, rfl, he⟩
      rw [he, (hs.hasNames hi).foldedPath_path]
      exact hb.findKey?_get hi
  case path_inj =>
    intro i j hi hj he
    apply hb.key_text_inj hi hj
    rw [← (hs.hasNames hi).lower_path, ← (hs.hasNames hj).lower_path, he]

end Built

/-- In a tree built over any roots and classes, the path of a module leads back to the module. -/
theorem aggregate_foundByPath (rootPaths : List Path) (files : List SourceFile)
    (classes : List ClassInfo) : FoundByPath (aggregate rootPaths files classes).tree :=
  (aggregate_built rootPaths files classes).foundByPath (aggregate_spelled rootPaths files classes)

end CodeAtlas
