import CodeAtlas.Proofs.Module.Hierarchy
import CodeAtlas.Proofs.Module.ModulePaths
import CodeAtlas.Proofs.Path.Parent

namespace CodeAtlas
open Slots

/-! ### Files in the same directory -/

theorem ModuleRoot.moduleNames?_congr {roots : List ModuleRoot} {dir dir' : Path}
    (h : dir.components = dir'.components) :
    moduleNames? roots dir = moduleNames? roots dir' := by
  have hstarts : ∀ base, dir.startsWith base = dir'.startsWith base := by
    intro base
    rw [Path.startsWith, Path.startsWith, h]
  have hbelow : ∀ base, dir.below? base = dir'.below? base := by
    intro base
    rw [Path.below?, Path.below?, hstarts, h]
  simp only [moduleNames?, innermost?, hstarts, hbelow]

/-- Classes of one file, however its path is written, go to one module by the same names. -/
theorem Placement.names_congr {roots : List ModuleRoot} {c d : ClassInfo}
    (h : c.file.components = d.file.components) :
    (ofClass roots c).names = (ofClass roots d).names := by
  have hparent := Path.parent?_congr h
  have hdir : (c.file.parent?.getD ⟨""⟩).components = (d.file.parent?.getD ⟨""⟩).components := by
    cases hc : c.file.parent? <;> cases hd : d.file.parent? <;> simp_all
  simp only [ofClass, ModuleRoot.moduleNames?_congr hdir]

theorem classKey_congr {roots : List ModuleRoot} {c d : ClassInfo}
    (h : c.file.components = d.file.components) : classKey roots c = classKey roots d := by
  rw [classKey, classKey, Placement.key, Placement.key, Placement.names_congr h]

/-! ### Keys and slots -/

theorem moduleKeys_congr {roots : List ModuleRoot} {cs ds : List ClassInfo}
    (h : ∀ k, (∃ c ∈ cs, classKey roots c = k) ↔ ∃ d ∈ ds, classKey roots d = k) :
    moduleKeys roots cs = moduleKeys roots ds := by
  apply List.Pairwise.eq_of_mem_iff (moduleKeys_treeKeys roots cs).ascending
    (moduleKeys_treeKeys roots ds).ascending
  intro k
  have hbelow : (∃ c ∈ cs, (topKey roots).length ≤ k.length ∧ k <+: classKey roots c) ↔
      ∃ d ∈ ds, (topKey roots).length ≤ k.length ∧ k <+: classKey roots d := by
    constructor
    · rintro ⟨c, hc, hk⟩
      obtain ⟨d, hd, he⟩ := (h _).1 ⟨c, hc, rfl⟩
      exact ⟨d, hd, he ▸ hk⟩
    · rintro ⟨d, hd, hk⟩
      obtain ⟨c, hc, he⟩ := (h _).2 ⟨d, hd, rfl⟩
      exact ⟨c, hc, he ▸ hk⟩
  rw [mem_moduleKeys, mem_moduleKeys, hbelow]

def SameNames (roots : List ModuleRoot) (cs ds : List ClassInfo) : Prop :=
  ∀ names, (∃ c ∈ cs, (Placement.ofClass roots c).names = names) ↔
    ∃ d ∈ ds, (Placement.ofClass roots d).names = names

section SameNames
variable {roots : List ModuleRoot} {cs ds : List ClassInfo}

theorem SameNames.classKey_iff (h : SameNames roots cs ds) (k : ModuleKey) :
    (∃ c ∈ cs, classKey roots c = k) ↔ ∃ d ∈ ds, classKey roots d = k := by
  constructor
  · rintro ⟨c, hc, rfl⟩
    obtain ⟨d, hd, he⟩ := (h _).1 ⟨c, hc, rfl⟩
    exact ⟨d, hd, by rw [classKey, classKey, Placement.key, Placement.key, he]⟩
  · rintro ⟨d, hd, rfl⟩
    obtain ⟨c, hc, he⟩ := (h _).2 ⟨d, hd, rfl⟩
    exact ⟨c, hc, by rw [classKey, classKey, Placement.key, Placement.key, he]⟩

theorem SameNames.mem_met (h : SameNames roots cs ds) (names : List String) :
    names ∈ met (ModuleRoot.topNames roots) (cs.map (Placement.ofClass roots)) ↔
      names ∈ met (ModuleRoot.topNames roots) (ds.map (Placement.ofClass roots)) := by
  have hbeginnings : ∀ xs : List ClassInfo,
      (∃ p ∈ xs.map (Placement.ofClass roots),
        names ∈ beginnings (ModuleRoot.topNames roots).length p.names) ↔
      ∃ whole, (∃ c ∈ xs, (Placement.ofClass roots c).names = whole) ∧
        names ∈ beginnings (ModuleRoot.topNames roots).length whole := by
    intro xs
    constructor
    · rintro ⟨p, hp, hn⟩
      obtain ⟨c, hc, rfl⟩ := List.mem_map.1 hp
      exact ⟨_, ⟨c, hc, rfl⟩, hn⟩
    · rintro ⟨_, ⟨c, hc, rfl⟩, hn⟩
      exact ⟨_, List.mem_map_of_mem hc, hn⟩
  rw [met, met, List.mem_cons, List.mem_cons, List.mem_flatMap, List.mem_flatMap, hbeginnings,
    hbeginnings]
  simp only [h _]

theorem mem_spellings_slotOf {files : List SourceFile} {k : ModuleKey} {s : String} :
    s ∈ (slotOf roots files cs k).spellings ↔
      ∃ names ∈ met (ModuleRoot.topNames roots) (cs.map (Placement.ofClass roots)),
        ModuleKey.ofNames names = k ∧ names.getLast? = some s := by
  simp only [slotOf, slotAfter, mem_sortedSet, List.mem_filterMap, List.mem_filter,
    decide_eq_true_eq, and_assoc]

theorem names_slotOf_mem_met (files : List SourceFile) {k : ModuleKey}
    (h : k ∈ moduleKeys roots cs) : (slotOf roots files cs k).names ∈
      met (ModuleRoot.topNames roots) (cs.map (Placement.ofClass roots)) := by
  obtain ⟨names, hn, he⟩ := mem_keysAfter.1 h
  have hmem : names ∈ (met (ModuleRoot.topNames roots) (cs.map (Placement.ofClass roots))).filter
      fun ns => ModuleKey.ofNames ns = k := List.mem_filter.2 ⟨hn, decide_eq_true he⟩
  obtain ⟨first, rest, hspelled⟩ := List.exists_cons_of_ne_nil (List.ne_nil_of_mem hmem)
  have hfirst : first ∈ (met (ModuleRoot.topNames roots)
      (cs.map (Placement.ofClass roots))).filter fun ns => ModuleKey.ofNames ns = k := by
    rw [hspelled]
    exact List.mem_cons_self
  have hnames : (slotOf roots files cs k).names = first := by
    simp only [slotOf, slotAfter, hspelled, List.head?_cons, Option.getD_some]
  rw [hnames]
  exact (List.mem_filter.1 hfirst).1

/-- The name of a module is its only spelling, or the last name of its key if there are more. -/
theorem name_slotOf {files : List SourceFile} {k : ModuleKey} (h : k ∈ moduleKeys roots cs) :
    (slotOf roots files cs k).name =
      if 1 < (slotOf roots files cs k).spellings.length then k.getLast?.getD ""
      else (slotOf roots files cs k).spellings.head?.getD "" := by
  have hkey : (slotOf roots files cs k).key = k := rfl
  simp only [Slot.name, Slot.isMerged, decide_eq_true_eq, hkey]
  split
  · rfl
  next hsingle =>
    have hk := ofNames_names_slotOf files h
    cases hlast : (slotOf roots files cs k).names.getLast? with
    | none =>
      have hnil : k = [] := by
        rw [← hk, List.getLast?_eq_none_iff.1 hlast]
        rfl
      have hnone : (slotOf roots files cs k).spellings = [] := by
        apply List.eq_nil_iff_forall_not_mem.2
        intro s hs
        obtain ⟨names, -, he, hs⟩ := mem_spellings_slotOf.1 hs
        rw [hnil, ModuleKey.ofNames, List.map_eq_nil_iff] at he
        simp [he] at hs
      rw [hnone]
      rfl
    | some s =>
      have hs : s ∈ (slotOf roots files cs k).spellings :=
        mem_spellings_slotOf.2 ⟨_, names_slotOf_mem_met files h, hk, hlast⟩
      obtain ⟨first, hfirst⟩ := List.length_eq_one_iff.1
        (Nat.le_antisymm (Nat.not_lt.1 hsingle) (List.length_pos_of_mem hs))
      rw [hfirst] at hs ⊢
      rw [List.mem_singleton.1 hs]
      rfl

theorem names_slotOf_topKey (files : List SourceFile) :
    (slotOf roots files cs (topKey roots)).names = ModuleRoot.topNames roots := by
  simp [slotOf, slotAfter, met, topKey]

theorem SameNames.spellings_eq (h : SameNames roots cs ds) (files : List SourceFile)
    (k : ModuleKey) :
    (slotOf roots files cs k).spellings = (slotOf roots files ds k).spellings := by
  apply sortedSet_congr
  intro s
  simp only [List.mem_filterMap, List.mem_filter, h.mem_met]

theorem SameNames.moduleKeys_eq (h : SameNames roots cs ds) :
    moduleKeys roots cs = moduleKeys roots ds :=
  moduleKeys_congr h.classKey_iff

theorem SameNames.name_eq (h : SameNames roots cs ds) (files : List SourceFile) {k : ModuleKey}
    (hk : k ∈ moduleKeys roots cs) :
    (slotOf roots files cs k).name = (slotOf roots files ds k).name := by
  rw [name_slotOf hk, name_slotOf (h.moduleKeys_eq ▸ hk), h.spellings_eq files]

end SameNames

/-! ### Trees -/

section Trees
variable {top : ModuleKey} {t u : ModuleTree} (ht : Linked top t.nodes.toList)
  (hu : Linked top u.nodes.toList)
  (hkeys : t.nodes.toList.map (·.key) = u.nodes.toList.map (·.key))
include hkeys

theorem size_eq_of_keys_eq : t.size = u.size := by
  have hlength := congrArg List.length hkeys
  rwa [List.length_map, List.length_map, t.length_toList, u.length_toList] at hlength

theorem key_eq_of_keys_eq {i : Nat} (hi : i < t.size) : (t.get i).key = (u.get i).key := by
  have hi' : i < u.size := size_eq_of_keys_eq hkeys ▸ hi
  have hget := congrArg (·[i]?) hkeys
  simpa [ModuleTree.getElem?_toList hi, ModuleTree.getElem?_toList hi'] using hget

include ht hu

theorem parentAt_eq_of_keys_eq : parentAt t.nodes.toList = parentAt u.nodes.toList := by
  funext i
  apply Option.ext
  intro p
  rw [ht.parentAt_eq_some, hu.parentAt_eq_some, hkeys]

theorem childrenAt_eq_of_keys_eq : childrenAt t.nodes.toList = childrenAt u.nodes.toList := by
  funext i
  have hsize := size_eq_of_keys_eq hkeys
  rw [childrenAt, childrenAt, parentAt_eq_of_keys_eq ht hu hkeys, t.length_toList, hsize,
    u.length_toList]

end Trees

def outline (n : ModuleNode) : ModuleNode :=
  { n with classes := [], own := .zero, stats := .zero }

theorem outline_eq {n m : ModuleNode} (hid : n.id = m.id) (hpath : n.path = m.path)
    (hname : n.name = m.name) (hkey : n.key = m.key) (hkind : n.kind = m.kind)
    (hchildren : n.children = m.children) (hparent : n.parent = m.parent) :
    outline n = outline m := by
  obtain ⟨⟩ := n
  obtain ⟨⟩ := m
  simp_all [outline]

section Aggregate
variable {rootPaths : List Path} {cs ds : List ClassInfo}
  (h : SameNames (ModuleRoot.ofPaths rootPaths) cs ds) (files : List SourceFile)
include h

theorem SameNames.size_eq :
    (aggregate rootPaths files cs).tree.size = (aggregate rootPaths files ds).tree.size := by
  apply size_eq_of_keys_eq
  rw [aggregate_keys, aggregate_keys, h.moduleKeys_eq]

/-- Trees over the same directories differ in their classes and counts alone. -/
theorem SameNames.outline_get {i : Nat} (hi : i < (aggregate rootPaths files cs).tree.size) :
    outline ((aggregate rootPaths files cs).tree.get i) =
      outline ((aggregate rootPaths files ds).tree.get i) := by
  have ht := aggregate_built rootPaths files cs
  have hu := aggregate_built rootPaths files ds
  have hkeys : (aggregate rootPaths files cs).tree.nodes.toList.map (·.key) =
      (aggregate rootPaths files ds).tree.nodes.toList.map (·.key) := by
    rw [ht.keys_eq, hu.keys_eq, h.moduleKeys_eq]
  have hsize := h.size_eq files
  have hkey : ∀ j < (aggregate rootPaths files cs).tree.size,
      ((aggregate rootPaths files cs).tree.get j).key =
        ((aggregate rootPaths files ds).tree.get j).key :=
    fun j hj => key_eq_of_keys_eq hkeys hj
  have hname : ∀ j < (aggregate rootPaths files cs).tree.size,
      ((aggregate rootPaths files cs).tree.get j).name =
        ((aggregate rootPaths files ds).tree.get j).name := by
    intro j hj
    rw [aggregate_name hj, aggregate_name (hsize ▸ hj), ← hkey j hj]
    exact h.name_eq files (ht.get_key_mem hj)
  have hparent : ∀ j < (aggregate rootPaths files cs).tree.size,
      ((aggregate rootPaths files cs).tree.get j).parent =
        ((aggregate rootPaths files ds).tree.get j).parent := by
    intro j hj
    rw [ModuleTree.get_parent hj, ModuleTree.get_parent (hsize ▸ hj),
      parentAt_eq_of_keys_eq ht.linked hu.linked hkeys]
  have hpath : ((aggregate rootPaths files cs).tree.get i).path =
      ((aggregate rootPaths files ds).tree.get i).path := by
    -- A parent stands before its child, so its path is known to be the same.
    induction i using Nat.strong_induction_on with
    | h i ih =>
      rw [aggregate_path hi, aggregate_path (hsize ▸ hi), ← hparent i hi, ← hname i hi]
      cases hp : ((aggregate rootPaths files cs).tree.get i).parent with
      | none =>
        have hzero : i = 0 := (ht.linked.parent_eq_none hi).1 hp
        have htop : ((aggregate rootPaths files cs).tree.get i).key =
            topKey (ModuleRoot.ofPaths rootPaths) := by
          rw [hzero]
          exact ht.linked.root_key
        simp only [← hkey i hi, htop, names_slotOf_topKey]
      | some p =>
        have hpt : parentAt (aggregate rootPaths files cs).tree.nodes.toList i = some p := by
          rw [← ModuleTree.get_parent hi, hp]
        have hpi := ht.linked.parentAt_lt hpt
        simp only [ih p hpi (hpi.trans hi)]
  apply outline_eq
  · rw [ht.linked.get_id hi, hu.linked.get_id (hsize ▸ hi)]
  · exact hpath
  · exact hname i hi
  · exact hkey i hi
  · rw [aggregate_kind hi, aggregate_kind (hsize ▸ hi), hkey i hi]
    rfl
  · rw [ModuleTree.get_children ht.linked hi, ModuleTree.get_children hu.linked (hsize ▸ hi),
      childrenAt_eq_of_keys_eq ht.linked hu.linked hkeys]
  · exact hparent i hi

end Aggregate
end CodeAtlas
