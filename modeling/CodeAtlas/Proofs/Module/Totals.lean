import CodeAtlas.Proofs.Module.Hierarchy

namespace CodeAtlas

structure AddsUp (classes : List ClassInfo) (t : ModuleTree) : Prop where
  own_eq : ∀ i < t.size, (t.get i).own = Stats.ofClasses (t.get i).classes
  stats_eq_add : ∀ i < t.size, (t.get i).stats =
    (t.get i).own.add (Stats.sum ((t.children i).map (·.stats)))
  stats_eq_sum : ∀ i < t.size, (t.get i).stats =
    Stats.sum ((t.subtree i).map fun j => (t.get j).own)
  root_stats : t.root.stats = Stats.ofClasses classes

theorem ModuleTree.get_stats {t : ModuleTree} {i : Nat} (hi : i < t.size) :
    (t.get i).stats = statsAt t.nodes.toList i := by
  simp [statsAt, getElem?_toList hi]

theorem ModuleTree.get_own {t : ModuleTree} {i : Nat} (hi : i < t.size) :
    (t.get i).own = ownAt t.nodes.toList i := by
  simp [ownAt, getElem?_toList hi]

/-- Nodes that count their own classes and what their children count, count all below them. -/
theorem Linked.statsAt_eq_sum {top : ModuleKey} {nodes : List ModuleNode} (h : Linked top nodes)
    (hadd : ∀ i < nodes.length, statsAt nodes i =
      (ownAt nodes i).add (Stats.sum ((childrenAt nodes i).map (statsAt nodes))))
    {i : Nat} (hi : i < nodes.length) :
    statsAt nodes i = Stats.sum ((belowAt nodes i).map (ownAt nodes)) := by
  -- Children stand after their parent, so the induction is on how many nodes stand after `i`.
  induction hm : nodes.length - i using Nat.strong_induction_on generalizing i with
  | h m ih =>
    subst hm
    have hchildren : (childrenAt nodes i).map (statsAt nodes) =
        (childrenAt nodes i).map fun c => Stats.sum ((belowAt nodes c).map (ownAt nodes)) :=
      List.map_congr_left fun c hc => by
        have hic := h.lt_of_mem_childrenAt hc
        have hcn := (mem_childrenAt.1 hc).1
        exact ih (nodes.length - c) (by omega) hcn rfl
    rw [hadd i hi, hchildren, h.belowAt_eq hi, List.map_cons, Stats.sum_cons, List.map_flatMap,
      Stats.sum_flatMap]

theorem Stats.classCount_le_sum {x : Stats} {xs : List Stats} (h : x ∈ xs) :
    x.classCount ≤ (Stats.sum xs).classCount := by
  induction xs with
  | nil => simp at h
  | cons y ys ih =>
    rw [Stats.sum_cons, Stats.add]
    rcases List.mem_cons.1 h with rfl | h
    · exact Nat.le_add_right _ _
    · exact (ih h).trans (Nat.le_add_left _ _)

namespace Built
variable {roots : List ModuleRoot} {classes : List ClassInfo} {t : ModuleTree}

theorem get_stats (h : Built roots classes t) {i : Nat} (hi : i < t.size) :
    (t.get i).stats = (t.get i).own.add (Stats.sum ((t.children i).map (·.stats))) := by
  rw [ModuleTree.get_stats hi, h.statsAt_eq hi, ModuleTree.get_own hi, ModuleTree.children,
    ModuleTree.get_children h.linked hi, List.map_map]
  congr 2
  refine List.map_congr_left fun c hc => ?_
  exact (ModuleTree.get_stats (mem_childrenAt.1 hc).1).symm

theorem get_stats_eq_sum (h : Built roots classes t) {i : Nat} (hi : i < t.size) :
    (t.get i).stats = Stats.sum ((t.subtree i).map fun j => (t.get j).own) := by
  rw [ModuleTree.get_stats hi, h.linked.statsAt_eq_sum (fun _ => h.statsAt_eq) hi,
    ModuleTree.subtree_eq h.linked hi]
  congr 1
  refine List.map_congr_left fun j hj => ?_
  exact (ModuleTree.get_own (mem_belowAt.1 hj).1).symm

theorem root_stats (h : Built roots classes t) : t.root.stats = Stats.ofClasses classes := by
  have hown : ∀ i ∈ List.range t.size,
      (t.get i).own = Stats.ofClasses (t.get i).classes := fun i hi =>
    h.get_own (List.mem_range.1 hi)
  rw [ModuleTree.root, h.get_stats_eq_sum h.linked.length_pos,
    ModuleTree.subtree_eq h.linked h.linked.length_pos, h.linked.belowAt_zero, t.length_toList,
    List.map_congr_left hown, ← Stats.ofClasses_flatMap]
  have hperm := h.allClasses_perm
  rw [ModuleTree.allClasses, t.toList_eq_map, List.flatMap_map] at hperm
  exact Stats.ofClasses_perm hperm

theorem hasContent (h : Built roots classes t) (hne : classes ≠ []) {i : Nat} (hi : i < t.size) :
    (t.get i).hasContent = true := by
  have hpos : 0 < (t.get i).stats.classCount := by
    by_cases hzero : i = 0
    · have hroot : (t.get i).stats = Stats.ofClasses classes := by
        rw [hzero]
        exact h.root_stats
      rw [hroot, Stats.sum_classCount]
      exact List.length_pos_iff.2 hne
    · obtain ⟨j, hj, hclasses⟩ := h.exists_class hi hzero
      have hjn : j < t.size := by
        rw [ModuleTree.subtree_eq h.linked hi] at hj
        exact (mem_belowAt.1 hj).1
      have hle := Stats.classCount_le_sum (List.mem_map_of_mem (f := fun j => (t.get j).own) hj)
      rw [h.get_own hjn, Stats.sum_classCount] at hle
      rw [h.get_stats_eq_sum hi]
      exact (List.length_pos_iff.2 hclasses).trans_le hle
  exact decide_eq_true hpos

end Built

/-- The counts of a built tree add up: whatever the roots, none of the classes is left out. -/
theorem aggregate_addsUp (rootPaths : List Path) (files : List SourceFile)
    (classes : List ClassInfo) : AddsUp classes (aggregate rootPaths files classes).tree := by
  have h := aggregate_built rootPaths files classes
  exact
    { own_eq := fun _ hi => h.get_own hi
      stats_eq_add := fun _ hi => h.get_stats hi
      stats_eq_sum := fun _ hi => h.get_stats_eq_sum hi
      root_stats := h.root_stats }

end CodeAtlas
