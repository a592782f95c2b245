import CodeAtlas.Proofs.Module.Naming

/-!
# Classes and their modules

No class is lost or doubled when a tree is built. A class of a directory under some root is in the
module named by the innermost of these roots and the directory names below it, and is looked up
there. A class of a directory under no root is in the topmost module and is not looked up.
-/
namespace CodeAtlas

structure Ownership (rootPaths : List Path) (classes : List ClassInfo) (t : ModuleTree) :
    Prop where
  allClasses_perm : t.allClasses.Perm classes
  /-- Under a root a class is in one module, whose key is made of the label of the innermost root
  and of the names among the components below it. -/
  under_root : ∀ c ∈ classes, ∀ dir, c.file.parent? = some dir → (∃ q ∈ rootPaths, q.Contains dir) →
    ∃ p, Path.Innermost rootPaths dir p ∧ ∃ i < t.size,
      (t.get i).key = ModuleKey.ofNames ((ModuleRoot.ofPath p).label ::
        (dir.components.drop p.components.length).filterMap Component.normal?) ∧
      (∀ j < t.size, c ∈ (t.get j).classes ↔ j = i) ∧ t.moduleOf? c = some (t.get i)
  under_no_root : ∀ c ∈ classes, ∀ dir, c.file.parent? = some dir →
    (∀ q ∈ rootPaths, ¬ q.Contains dir) →
      (∀ j < t.size, c ∈ (t.get j).classes ↔ j = 0) ∧ t.moduleOf? c = none

theorem classKey_of_moduleNames? {roots : List ModuleRoot} {c : ClassInfo} {dir : Path}
    {names : List String} (hdir : c.file.parent? = some dir)
    (h : ModuleRoot.moduleNames? roots dir = some names) :
    classKey roots c = ModuleKey.ofNames names := by
  simp [classKey, Placement.key, Placement.ofClass, hdir, h]

theorem classKey_of_moduleNames?_eq_none {roots : List ModuleRoot} {c : ClassInfo} {dir : Path}
    (hdir : c.file.parent? = some dir) (h : ModuleRoot.moduleNames? roots dir = none) :
    classKey roots c = topKey roots := by
  simp [classKey, topKey, Placement.key, Placement.ofClass, hdir, h]

namespace Built
variable {rootPaths : List Path} {classes : List ClassInfo} {t : ModuleTree}

theorem mem_classes_iff {roots : List ModuleRoot} (h : Built roots classes t) {c : ClassInfo}
    (hc : c ∈ classes) {i : Nat} (hi : i < t.size) (hk : (t.get i).key = classKey roots c)
    {j : Nat} (hj : j < t.size) : c ∈ (t.get j).classes ↔ j = i := by
  rw [h.mem_get_classes hj, ← hk]
  constructor
  · rintro ⟨-, he⟩
    exact h.get_key_inj hj hi he.symm
  · rintro rfl
    exact ⟨hc, rfl⟩

theorem under_root (h : Built (ModuleRoot.ofPaths rootPaths) classes t) {c : ClassInfo}
    (hc : c ∈ classes) {dir : Path} (hdir : c.file.parent? = some dir)
    (hroot : ∃ q ∈ rootPaths, q.Contains dir) :
    ∃ p, Path.Innermost rootPaths dir p ∧ ∃ i < t.size,
      (t.get i).key = ModuleKey.ofNames ((ModuleRoot.ofPath p).label ::
        (dir.components.drop p.components.length).filterMap Component.normal?) ∧
      (∀ j < t.size, c ∈ (t.get j).classes ↔ j = i) ∧ t.moduleOf? c = some (t.get i) := by
  obtain ⟨p, hp, hnames⟩ := ModuleRoot.moduleNames?_ofPaths hroot
  have hkey := classKey_of_moduleNames? hdir hnames
  obtain ⟨i, hi, hk⟩ := h.exists_get_key (classKey_mem hc)
  refine ⟨p, hp, i, hi, hk.trans hkey, fun j hj => h.mem_classes_iff hc hi hk hj, ?_⟩
  simp only [ModuleTree.moduleOf?, hdir, h.roots_eq, hnames]
  rw [← hkey, ← hk]
  exact h.findKey?_get hi

theorem under_no_root (h : Built (ModuleRoot.ofPaths rootPaths) classes t) {c : ClassInfo}
    (hc : c ∈ classes) {dir : Path} (hdir : c.file.parent? = some dir)
    (hnone : ∀ q ∈ rootPaths, ¬ q.Contains dir) :
    (∀ j < t.size, c ∈ (t.get j).classes ↔ j = 0) ∧ t.moduleOf? c = none := by
  have hnames := ModuleRoot.moduleNames?_ofPaths_eq_none hnone
  have hpos := h.linked.length_pos
  have htop : (t.get 0).key = classKey (ModuleRoot.ofPaths rootPaths) c := by
    rw [classKey_of_moduleNames?_eq_none hdir hnames]
    exact h.linked.root_key
  refine ⟨fun j hj => h.mem_classes_iff hc hpos htop hj, ?_⟩
  simp only [ModuleTree.moduleOf?, hdir, h.roots_eq, hnames]

end Built

/-- No class is lost, doubled or misplaced, whatever the roots. -/
theorem aggregate_ownership (rootPaths : List Path) (files : List SourceFile)
    (classes : List ClassInfo) :
    Ownership rootPaths classes (aggregate rootPaths files classes).tree := by
  have h := aggregate_built rootPaths files classes
  exact
    { allClasses_perm := h.allClasses_perm
      under_root := fun _ hc _ hdir hroot => h.under_root hc hdir hroot
      under_no_root := fun _ hc _ hdir hnone => h.under_no_root hc hdir hnone }

/-- The key leaves out what is no name: below `/r`, the directory `/r/..` is the root's module. -/
theorem not_forall_key_eq_components :
    ¬ ∀ (rootPaths : List Path) (files : List SourceFile) (classes : List ClassInfo),
      ∀ c ∈ classes, ∀ dir p, c.file.parent? = some dir → Path.Innermost rootPaths dir p →
        ∃ i < (aggregate rootPaths files classes).tree.size,
          ((aggregate rootPaths files classes).tree.get i).key =
            ModuleKey.ofNames ((ModuleRoot.ofPath p).label ::
              (dir.components.drop p.components.length).map Component.text) ∧
          c ∈ ((aggregate rootPaths files classes).tree.get i).classes := by
  intro h
  have hp : Path.Innermost [⟨"/r"⟩] ⟨"/r/.."⟩ ⟨"/r"⟩ :=
    ⟨by simp, by decide, fun q hq _ => by rw [List.mem_singleton.1 hq]⟩
  obtain ⟨i, hi, hk, -⟩ := h [⟨"/r"⟩] [] [⟨"A", ⟨"/r/../a.py"⟩, 1, 0, 1, 1⟩] _
    (List.mem_singleton.2 rfl) ⟨"/r/.."⟩ ⟨"/r"⟩ (by decide) hp
  have hmem := (aggregate_built _ _ _).get_key_mem hi
  rw [hk] at hmem
  exact absurd hmem (by decide +kernel)

end CodeAtlas
