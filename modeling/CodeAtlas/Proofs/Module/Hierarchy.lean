import CodeAtlas.Proofs.Module.Built

namespace CodeAtlas

/-- A strict hierarchy under the key `top` that leads to modules with the keys `own`. -/
structure Hierarchy (top : ModuleKey) (own : List ModuleKey) (t : ModuleTree) : Prop where
  keys_ascending : (t.nodes.toList.map (·.key)).Pairwise (· < ·)
  /-- The keys are that of the top and the beginnings, no shorter, of the given ones. -/
  mem_keys : ∀ k, k ∈ t.nodes.toList.map (·.key) ↔
    k = top ∨ ∃ q ∈ own, top.length ≤ k.length ∧ k <+: q
  root_key : t.root.key = top
  id_eq : ∀ i < t.size, (t.get i).id = i
  parent_eq_none : ∀ i < t.size, (t.get i).parent = none ↔ i = 0
  /-- A parent stands before its child, and its key is one name shorter. -/
  exists_parent : ∀ i < t.size, i ≠ 0 →
    ∃ p < i, (t.get i).parent = some p ∧ ∃ s, (t.get i).key = (t.get p).key ++ [s]
  mem_children : ∀ i < t.size, ∀ p < t.size, i ∈ (t.get p).children ↔ (t.get i).parent = some p
  count_children : ∀ i < t.size, i ≠ 0 → (t.nodes.toList.flatMap (·.children)).count i = 1
  children_ascending : ∀ p < t.size,
    ((t.get p).children.map fun i => Text.lower (t.get i).name).Pairwise (· < ·)
  /-- Every module but the top has a class at or below it. -/
  exists_class : ∀ i < t.size, i ≠ 0 → ∃ j ∈ t.subtree i, (t.get j).classes ≠ []

section Linked
variable {top : ModuleKey} {t : ModuleTree}

theorem Linked.get_id (h : Linked top t.nodes.toList) {i : Nat} (hi : i < t.size) :
    (t.get i).id = i := by
  have hids := congrArg (·[i]?) h.ids
  rw [List.getElem?_map, ModuleTree.getElem?_toList hi, t.length_toList,
    List.getElem?_range hi] at hids
  exact Option.some.inj hids

theorem Linked.parent_eq_none (h : Linked top t.nodes.toList) {i : Nat} (hi : i < t.size) :
    (t.get i).parent = none ↔ i = 0 := by
  rw [ModuleTree.get_parent hi, ← h.keyAt_eq_top hi]
  constructor
  · intro hn
    by_contra hne
    obtain ⟨p, hp⟩ := h.exists_parentAt hi hne
    rw [hn] at hp
    simp at hp
  · intro htop
    cases hp : parentAt t.nodes.toList i with
    | none => rfl
    | some p => exact absurd htop (h.parentAt_iff.1 hp).2.1

theorem Linked.exists_parent (h : Linked top t.nodes.toList) {i : Nat} (hi : i < t.size)
    (hne : i ≠ 0) :
    ∃ p < i, (t.get i).parent = some p ∧ ∃ s, (t.get i).key = (t.get p).key ++ [s] := by
  obtain ⟨p, hp⟩ := h.exists_parentAt hi ((h.keyAt_eq_top hi).not.2 hne)
  obtain ⟨s, hs⟩ := h.keyAt_parentAt hp
  refine ⟨p, h.parentAt_lt hp, (ModuleTree.get_parent hi).trans hp, s, ?_⟩
  rw [ModuleTree.get_key hi, ModuleTree.get_key (h.parentAt_iff.1 hp).1.2, hs]

theorem Linked.mem_children (h : Linked top t.nodes.toList) {i p : Nat} (hi : i < t.size)
    (hp : p < t.size) : i ∈ (t.get p).children ↔ (t.get i).parent = some p := by
  rw [ModuleTree.get_children h hp, mem_childrenAt, ModuleTree.get_parent hi]
  exact and_iff_right hi

theorem Linked.flatMap_children (h : Linked top t.nodes.toList) :
    t.nodes.toList.flatMap (·.children) =
      (List.range t.size).flatMap (childrenAt t.nodes.toList) := by
  rw [t.toList_eq_map, List.flatMap_map, ← t.toList_eq_map]
  exact List.flatMap_congr fun i hi => ModuleTree.get_children h (List.mem_range.1 hi)

theorem Linked.count_children (h : Linked top t.nodes.toList) {i : Nat} (hi : i < t.size)
    (hne : i ≠ 0) : (t.nodes.toList.flatMap (·.children)).count i = 1 := by
  obtain ⟨p, hp⟩ := h.exists_parentAt hi ((h.keyAt_eq_top hi).not.2 hne)
  rw [h.flatMap_children]
  refine List.count_eq_one_of_mem (List.nodup_flatMap.2 ⟨?_, ?_⟩) ?_
  · exact fun q _ => List.nodup_range.filter _
  · refine List.nodup_range.imp_of_mem fun _ _ hne c hc hc' => hne ?_
    have he := (mem_childrenAt.1 hc).2.symm.trans (mem_childrenAt.1 hc').2
    exact Option.some.inj he
  · have hpt := (h.parentAt_iff.1 hp).1.2
    exact List.mem_flatMap.2 ⟨p, List.mem_range.2 hpt, mem_childrenAt.2 ⟨hi, hp⟩⟩

end Linked

namespace Built
variable {roots : List ModuleRoot} {classes : List ClassInfo} {t : ModuleTree}

theorem children_ascending (h : Built roots classes t) {p : Nat} (hp : p < t.size) :
    ((t.get p).children.map fun i => Text.lower (t.get i).name).Pairwise (· < ·) := by
  rw [ModuleTree.get_children h.linked hp, List.pairwise_map]
  have hasc : (childrenAt t.nodes.toList p).Pairwise (· < ·) := List.pairwise_lt_range.filter _
  refine hasc.imp_of_mem fun {i j} hi hj hlt => ?_
  obtain ⟨hin, hip⟩ := mem_childrenAt.1 hi
  obtain ⟨hjn, hjp⟩ := mem_childrenAt.1 hj
  obtain ⟨s, hs⟩ := h.linked.keyAt_parentAt hip
  obtain ⟨s', hs'⟩ := h.linked.keyAt_parentAt hjp
  have hkey := h.linked.keyAt_lt hlt hjn
  rw [h.lower_name hin, h.lower_name hjn, ModuleTree.get_key hin, ModuleTree.get_key hjn]
  rw [hs, hs', ModuleKey.append_singleton_lt] at hkey
  simpa only [hs, hs', List.getLast?_concat, Option.getD_some] using hkey

theorem exists_class (h : Built roots classes t) {i : Nat} (hi : i < t.size) (hne : i ≠ 0) :
    ∃ j ∈ t.subtree i, (t.get j).classes ≠ [] := by
  have htop : (t.get i).key ≠ topKey roots := by
    rw [ModuleTree.get_key hi]
    exact (h.linked.keyAt_eq_top hi).not.2 hne
  obtain ⟨c, hc, -, hpre⟩ := (mem_moduleKeys.1 (h.get_key_mem hi)).resolve_left htop
  obtain ⟨j, hj, he⟩ := h.exists_get_key (classKey_mem hc)
  refine ⟨j, ?_, List.ne_nil_of_mem ((h.mem_get_classes hj).2 ⟨hc, he.symm⟩)⟩
  rw [ModuleTree.subtree_eq h.linked hi, mem_belowAt, ← ModuleTree.get_key hi,
    ← ModuleTree.get_key hj, he]
  exact ⟨hj, hpre⟩

end Built

/-- A built tree is a strict hierarchy of the directories that lead to classes. -/
theorem aggregate_hierarchy (rootPaths : List Path) (files : List SourceFile)
    (classes : List ClassInfo) :
    Hierarchy (topKey (ModuleRoot.ofPaths rootPaths))
      (classes.map (classKey (ModuleRoot.ofPaths rootPaths)))
      (aggregate rootPaths files classes).tree := by
  have hb := aggregate_built rootPaths files classes
  have h := hb.linked
  exact
    { keys_ascending := h.treeKeys.ascending
      mem_keys := fun k => by simp [hb.keys_eq, mem_moduleKeys]
      root_key := h.root_key
      id_eq := fun _ hi => h.get_id hi
      parent_eq_none := fun _ hi => h.parent_eq_none hi
      exists_parent := fun _ hi hne => h.exists_parent hi hne
      mem_children := fun _ hi _ hp => h.mem_children hi hp
      count_children := fun _ hi hne => h.count_children hi hne
      children_ascending := fun _ hp => hb.children_ascending hp
      exists_class := fun _ hi hne => hb.exists_class hi hne }

end CodeAtlas
