import CodeAtlas.Proofs.Diagram.Containment
import CodeAtlas.Proofs.Diagram.Nest

/-!
# Models and trees

The model of a built tree holds what the tree holds and no more: a node for each module and for
each class of a module, and one edge to each of them but the root. A walk along the edges finds the
modules as they hang together in the tree.
-/
namespace CodeAtlas

theorem map_some_filterMap {α β : Type} {f : α → Option β} {xs : List α}
    (h : ∀ x ∈ xs, (f x).isSome) : (xs.filterMap f).map some = xs.map f := by
  induction xs with
  | nil => rfl
  | cons x xs ih =>
    obtain ⟨y, hy⟩ := Option.isSome_iff_exists.1 (h x List.mem_cons_self)
    rw [List.filterMap_cons_some hy, List.map_cons, List.map_cons, hy,
      ih fun z hz => h z (List.mem_cons_of_mem x hz)]

def ModuleNode.info (moduleFile : String) (n : ModuleNode) : NodeInfo :=
  .ofModule n.id n.displayName n.stats
    (if n.hasContent then some (n.documentPath moduleFile) else none)

def ModuleNode.classInfos (moduleFile : String) (n : ModuleNode) : List NodeInfo :=
  n.classes.map fun c =>
    .ofClass c.name c.loc c.methodCount c.anchor (n.documentPath moduleFile)

def ModuleTree.infos? (t : ModuleTree) (moduleFile : String) (i : Nat) :
    Option (NodeInfo × List NodeInfo) :=
  (t.get? i).map fun n => (n.info moduleFile, n.classInfos moduleFile)

namespace DiagramModel

/-- What the node at a position tells, and what the classes that it contains tell. -/
def infos? (m : DiagramModel) (position : Nat) : Option (NodeInfo × List NodeInfo) :=
  (m.node? position).map fun node =>
    (node.info, ((m.contained position .ownClass).filterMap m.node?).map (·.info))

structure Refines (m : DiagramModel) (t : ModuleTree) (moduleFile : String) : Prop where
  /-- There is one node for each module and for each class of a module. -/
  infos : m.nodes.toList.map (·.info) = t.nodes.toList.map (·.info moduleFile) ++
    t.nodes.toList.flatMap (·.classInfos moduleFile)
  size_nodes : m.nodes.size = t.size + t.allClasses.length
  length_edges : m.edges.length + 1 = m.nodes.size
  edge : ∀ e ∈ m.edges,
    (∃ i < t.size, m.position? i = some e.source) ∧ e.target < m.nodes.size
  /-- The root is in no other node, and each other node is in one. -/
  countP_target : ∀ position < m.nodes.size, (m.edges.countP fun e => e.target = position) =
    if m.position? t.root.id = some position then 0 else 1
  node : ∀ i < t.size, ∃ position node, m.position? i = some position ∧
    m.node? position = some node ∧ node.info = (t.get i).info moduleFile
  childModule : ∀ i < t.size, ∀ position, m.position? i = some position →
    (m.contained position .childModule).map some = (t.get i).children.map m.position?
  ownClass : ∀ i < t.size, ∀ position, m.position? i = some position →
    (m.contained position .ownClass).map (fun target => (m.node? target).map (·.info)) =
      ((t.get i).classInfos moduleFile).map some
  /-- A walk along the edges from the root finds the tree. -/
  unfolds : ∃ nest position, m.position? t.root.id = some position ∧
    Unfolds (t.infos? moduleFile) (fun i => (t.get i).children) t.root.id nest ∧
    Unfolds m.infos? (m.contained · .childModule) position nest

section Tree
variable {top : ModuleKey} {t : ModuleTree} (h : Linked top t.nodes.toList) (moduleFile : String)
  (ids : IdSupply)

omit h in
theorem length_classOwners (t : ModuleTree) : (classOwners t).length = t.allClasses.length := by
  rw [ModuleTree.allClasses, t.toList_eq_map, List.flatMap_map, classOwners, List.length_flatMap,
    List.length_flatMap]
  simp only [List.length_replicate]

include h

theorem infos_build : (build t moduleFile ids).1.nodes.toList.map (·.info) =
    t.nodes.toList.map (·.info moduleFile) ++
      t.nodes.toList.flatMap (·.classInfos moduleFile) := by
  rw [nodes_build_from h, List.map_append, List.map_map, List.map_flatMap, t.toList_eq_map,
    List.map_map, List.flatMap_map]
  congr 1
  exact List.flatMap_congr fun i _ => map_info_ownNodesFrom ids t moduleFile i

theorem size_nodes_build :
    (build t moduleFile ids).1.nodes.size = t.size + t.allClasses.length := by
  have hlength := congrArg List.length (infos_build h moduleFile ids)
  have hclasses : (t.nodes.toList.flatMap (·.classInfos moduleFile)).length =
      t.allClasses.length := by
    rw [ModuleTree.allClasses, List.length_flatMap, List.length_flatMap]
    simp only [ModuleNode.classInfos, List.length_map]
  rwa [List.length_append, List.length_map, List.length_map, hclasses, t.length_toList] at hlength

theorem targets_build : (build t moduleFile ids).1.edges.map (·.target) =
    List.range' 1 (t.size - 1 + t.allClasses.length) := by
  have hpos : 0 < t.size := h.length_pos
  have hrange : List.range t.size = 0 :: List.range' 1 (t.size - 1) := by
    obtain ⟨n, hn⟩ := Nat.exists_eq_succ_of_ne_zero hpos.ne'
    rw [hn, List.range_eq_range', List.range'_succ]
    rfl
  have hroot : moduleEdge? t 0 = none := by
    rw [moduleEdge?, (h.parent_eq_none hpos).2 rfl, Option.map_none]
  have hedge : ∀ i ∈ List.range' 1 (t.size - 1),
      (moduleEdge? t i).map (·.target) = some i := by
    intro i hi
    rw [List.mem_range'_1] at hi
    obtain ⟨p, -, hp, -⟩ := h.exists_parent (show i < t.size by omega) (by omega)
    rw [moduleEdge?, hp, Option.map_some, Option.map_some]
  have hmodules : ((List.range t.size).filterMap (moduleEdge? t)).map (·.target) =
      List.range' 1 (t.size - 1) := by
    rw [hrange, List.filterMap_cons_none hroot, List.map_filterMap, List.filterMap_congr hedge,
      List.filterMap_some]
  have hclasses : (((classOwners t).zipIdx t.size).map classEdge).map (·.target) =
      List.range' (1 + (t.size - 1)) t.allClasses.length := by
    rw [List.map_map, Nat.add_sub_cancel' hpos, ← length_classOwners]
    exact List.zipIdx_map_snd t.size (classOwners t)
  rw [edges_build h, List.map_append, hmodules, hclasses, List.range'_append_1]

theorem countP_target_build (position : Nat) :
    ((build t moduleFile ids).1.edges.countP fun e => e.target = position) =
      if 1 ≤ position ∧ position < (build t moduleFile ids).1.nodes.size then 1 else 0 := by
  have hpos : 0 < t.size := h.length_pos
  have hcount : ((build t moduleFile ids).1.edges.countP fun e => e.target = position) =
      ((build t moduleFile ids).1.edges.map (·.target)).count position := by
    rw [List.count_eq_countP, List.countP_map]
    exact List.countP_congr fun e _ => by simp
  have hmem : position ∈ List.range' 1 (t.size - 1 + t.allClasses.length) ↔
      1 ≤ position ∧ position < (build t moduleFile ids).1.nodes.size := by
    rw [List.mem_range'_1, size_nodes_build h]
    omega
  rw [hcount, targets_build h, (List.nodup_range' 1).count]
  simp only [hmem]

theorem edge_lt_build {e : ContainmentEdge} (he : e ∈ (build t moduleFile ids).1.edges) :
    e.source < t.size ∧ e.target < (build t moduleFile ids).1.nodes.size := by
  have htarget := List.mem_map_of_mem (f := (·.target)) he
  rw [targets_build h, List.mem_range'_1] at htarget
  rw [size_nodes_build h]
  have hsource : e.source < t.size := by
    rw [edges_build h] at he
    rcases List.mem_append.1 he with he | he
    · obtain ⟨i, hi, he⟩ := List.mem_filterMap.1 he
      obtain ⟨p, hp, rfl⟩ := Option.map_eq_some_iff.1 he
      rw [ModuleTree.get_parent (List.mem_range.1 hi)] at hp
      exact (h.parentAt_iff.1 hp).1.2
    · obtain ⟨⟨i, _⟩, hi, rfl⟩ := List.mem_map.1 he
      obtain ⟨j, hj, hi⟩ := List.mem_flatMap.1 (List.fst_mem_of_mem_zipIdx hi)
      rw [classEdge, List.eq_of_mem_replicate hi]
      exact List.mem_range.1 hj
  omega

theorem classNodes_build {i : Nat} (hi : i < t.size) :
    (build t moduleFile ids).1.classNodes i = ownNodesFrom ids t moduleFile i := by
  rw [classNodes, position?_build h moduleFile hi]
  exact contained_ownClass_from h moduleFile hi

theorem map_ownClass_build {i : Nat} (hi : i < t.size) :
    ((build t moduleFile ids).1.contained i .ownClass).map
        (fun target => ((build t moduleFile ids).1.node? target).map (·.info)) =
      ((t.get i).classInfos moduleFile).map some := by
  have hnode : ∀ target ∈ (build t moduleFile ids).1.contained i .ownClass,
      ((build t moduleFile ids).1.node? target).isSome := by
    intro target htarget
    obtain ⟨e, he, rfl⟩ := List.mem_map.1 htarget
    have hlt := (edge_lt_build h moduleFile ids (List.mem_of_mem_filter he)).2
    rw [node?, Array.getElem?_eq_getElem hlt]
    rfl
  have hnodes : ((build t moduleFile ids).1.contained i .ownClass).map
      (build t moduleFile ids).1.node? = (ownNodesFrom ids t moduleFile i).map some := by
    rw [← map_some_filterMap hnode, contained_ownClass_from h moduleFile hi]
  have hinfos := map_info_ownNodesFrom ids t moduleFile i
  calc ((build t moduleFile ids).1.contained i .ownClass).map
        (fun target => ((build t moduleFile ids).1.node? target).map (·.info))
      = (((build t moduleFile ids).1.contained i .ownClass).map
          (build t moduleFile ids).1.node?).map (Option.map (·.info)) := by
        rw [List.map_map]
        rfl
    _ = ((ownNodesFrom ids t moduleFile i).map (·.info)).map some := by
        rw [hnodes, List.map_map, List.map_map]
        rfl
    _ = ((t.get i).classInfos moduleFile).map some := by rw [hinfos, ModuleNode.classInfos]

theorem infos?_build {i : Nat} (hi : i < t.size) :
    (build t moduleFile ids).1.infos? i = t.infos? moduleFile i := by
  have hget : t.get? i = some (t.get i) := by
    rw [ModuleTree.get?, ← Array.getElem?_toList, ModuleTree.getElem?_toList hi]
  rw [infos?, node?_build_from h moduleFile hi, contained_ownClass_from h moduleFile hi,
    ModuleTree.infos?, hget, Option.map_some, Option.map_some, map_info_ownNodesFrom]
  rfl

theorem eq_of_position?_build {i position : Nat} (hi : i < t.size)
    (hp : (build t moduleFile ids).1.position? i = some position) : i = position := by
  rw [position?_build h moduleFile hi] at hp
  exact Option.some.inj hp

theorem lt_of_mem_children {i c : Nat} (hi : i < t.size) (hc : c ∈ (t.get i).children) :
    i < c ∧ c < t.size := by
  rw [ModuleTree.get_children h hi] at hc
  exact ⟨h.lt_of_mem_childrenAt hc, (mem_childrenAt.1 hc).1⟩

theorem exists_unfolds_build : ∃ nest,
    Unfolds (t.infos? moduleFile) (fun i => (t.get i).children) t.root.id nest ∧
      Unfolds (build t moduleFile ids).1.infos?
        ((build t moduleFile ids).1.contained · .childModule) t.root.id nest := by
  have hpos : 0 < t.size := h.length_pos
  have hroot : t.root.id < t.size := (h.get_id hpos).symm ▸ hpos
  have hnext : ∀ i < t.size, ∀ c ∈ (t.get i).children, i < c ∧ c < t.size :=
    fun i hi c hc => lt_of_mem_children h hi hc
  have hlabel : ∀ i < t.size, (t.infos? moduleFile i).isSome := by
    intro i hi
    rw [← infos?_build h moduleFile ids hi, infos?, node?_build_from h moduleFile hi]
    rfl
  obtain ⟨nest, hnest⟩ := exists_unfolds hlabel hnext hroot
  refine ⟨nest, hnest, hnest.congr ?_ ?_ hnext hroot⟩
  · exact fun i hi => (infos?_build h moduleFile ids hi).symm
  · exact fun i hi => (contained_childModule h moduleFile hi).symm

/-- Where the nodes of the tree know their parents and children, the model is that of the tree. -/
theorem refines_build : (build t moduleFile ids).1.Refines t moduleFile where
  infos := infos_build h moduleFile ids
  size_nodes := size_nodes_build h moduleFile ids
  length_edges := by
    have hpos : 0 < t.size := h.length_pos
    have hlength := congrArg List.length (targets_build h moduleFile ids)
    rw [List.length_map, List.length_range'] at hlength
    rw [hlength, size_nodes_build h]
    omega
  edge := by
    intro e he
    obtain ⟨hsource, htarget⟩ := edge_lt_build h moduleFile ids he
    exact ⟨⟨e.source, hsource, position?_build h moduleFile hsource⟩, htarget⟩
  countP_target := by
    intro position hposition
    have hroot : t.root.id = 0 := h.get_id h.length_pos
    rw [countP_target_build h, hroot, position?_build h moduleFile h.length_pos]
    by_cases hzero : position = 0
    · rw [if_neg (by omega), if_pos (by rw [hzero])]
    · rw [if_pos (by omega), if_neg fun he => hzero (Option.some.inj he).symm]
  node := fun i hi =>
    ⟨i, _, position?_build h moduleFile hi, node?_build_from h moduleFile hi, rfl⟩
  childModule := by
    intro i hi position hposition
    obtain rfl := eq_of_position?_build h moduleFile ids hi hposition
    rw [contained_childModule h moduleFile hi]
    exact List.map_congr_left fun c hc =>
      (position?_build h moduleFile (lt_of_mem_children h hi hc).2).symm
  ownClass := by
    intro i hi position hposition
    obtain rfl := eq_of_position?_build h moduleFile ids hi hposition
    exact map_ownClass_build h moduleFile ids hi
  unfolds := by
    have hroot : t.root.id < t.size := (h.get_id h.length_pos).symm ▸ h.length_pos
    obtain ⟨nest, htree, hmodel⟩ := exists_unfolds_build h moduleFile ids
    exact ⟨nest, t.root.id, position?_build h moduleFile hroot, htree, hmodel⟩

end Tree

/-- Whatever ids are left, the model of a built tree is that of the tree. -/
theorem aggregate_refines (rootPaths : List Path) (files : List SourceFile)
    (classes : List ClassInfo) (moduleFile : String) (ids : IdSupply) :
    (build (aggregate rootPaths files classes).tree moduleFile ids).1.Refines
      (aggregate rootPaths files classes).tree moduleFile :=
  refines_build (aggregate_built rootPaths files classes).linked moduleFile ids

end DiagramModel
end CodeAtlas
