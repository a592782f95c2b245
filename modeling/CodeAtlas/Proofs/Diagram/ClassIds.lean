import CodeAtlas.Proofs.Diagram.FileNumbers
import CodeAtlas.Proofs.Diagram.Nodes
import CodeAtlas.Proofs.Module.Hierarchy

namespace CodeAtlas

def DiagramNode.isClass (n : DiagramNode) : Bool :=
  match n.info with
  | .ofClass .. => true
  | .ofModule .. => false

/-- The classes of a tree with the ids of their nodes in its model. -/
def classIds (t : ModuleTree) (moduleFile : String) : List (ClassInfo × String) :=
  (t.modules.flatMap (·.classes)).zip
    (((DiagramModel.build t moduleFile .empty).1.nodes.toList.filter (·.isClass)).map (·.id))

/-- What the model of a tree tells of the modules but for their counts: the id of the node, the
module, its path and its document. -/
def moduleIds (t : ModuleTree) (moduleFile : String) : List (String × Nat × String × Option Path) :=
  (DiagramModel.build t moduleFile .empty).1.nodes.toList.filterMap fun node =>
    match node.info with
    | .ofModule id path _ doc => some (node.id, id, path, doc)
    | .ofClass .. => none

def classEntry (ordinal : Nat) (e : ClassInfo × Nat × Nat) : ClassInfo × String :=
  (e.1, IdSupply.classText ordinal e.2.1 e.2.2)

def classEntries (ordinal : Nat) (cs : List ClassInfo) : List (ClassInfo × String) :=
  (countedFrom (fun _ => 0) (numberFiles cs)).map (classEntry ordinal)

theorem map_fst_classEntries (ordinal : Nat) (cs : List ClassInfo) :
    (classEntries ordinal cs).map (·.1) = cs := by
  have hcounted := map_fst_countedFrom (fun _ => 0) (numberFiles cs)
  rw [map_snd_numberFiles] at hcounted
  rw [classEntries, List.map_map]
  exact hcounted

theorem zipIdx_map_range {α : Type} (f : Nat → α) (n : Nat) :
    ((List.range n).map f).zipIdx = (List.range n).map fun i => (f i, i) := by
  apply List.ext_getElem?
  intro i
  simp only [List.getElem?_zipIdx, List.getElem?_map]
  by_cases hi : i < n
  · simp [hi]
  · simp [hi]

def ownNodesFrom (ids : IdSupply) (t : ModuleTree) (moduleFile : String) (i : Nat) :
    List DiagramNode :=
  (countedFrom (ids.takenFor (ids.nextModule + i)) (numberFiles (t.get i).classes)).map
    (classNode (ids.nextModule + i) ((t.get i).documentPath moduleFile))

section Built
variable {top : ModuleKey} {t : ModuleTree} (h : Linked top t.nodes.toList) (moduleFile : String)
include h

theorem modules_eq : t.modules = (List.range t.size).map t.get := by
  have hroot : t.root.id = 0 := h.get_id h.length_pos
  rw [ModuleTree.modules, hroot, ModuleTree.subtree_eq h h.length_pos, h.belowAt_zero,
    t.length_toList]

theorem nodes_build_from (ids : IdSupply) : (DiagramModel.build t moduleFile ids).1.nodes.toList =
    (List.range t.size).map (fun i => moduleNode moduleFile (t.get i) (ids.nextModule + i)) ++
      (List.range t.size).flatMap (ownNodesFrom ids t moduleFile) := by
  rw [DiagramModel.nodes_build, List.zipIdx_eq_map_add (i := ids.nextModule), modules_eq h,
    zipIdx_map_range, List.map_map, List.map_map, List.flatMap_map]
  rfl

theorem nodes_build_empty : (DiagramModel.build t moduleFile .empty).1.nodes.toList =
    (List.range t.size).map (fun i => moduleNode moduleFile (t.get i) i) ++
      (List.range t.size).flatMap fun i =>
        (countedFrom (fun _ => 0) (numberFiles (t.get i).classes)).map
          (classNode i ((t.get i).documentPath moduleFile)) := by
  have hnext : ∀ i, IdSupply.empty.nextModule + i = i := Nat.zero_add
  have htaken : ∀ m, IdSupply.empty.takenFor m = fun _ => 0 := fun _ => rfl
  rw [nodes_build_from h]
  unfold ownNodesFrom
  simp only [hnext, htaken]

theorem filter_isClass_nodes :
    (DiagramModel.build t moduleFile .empty).1.nodes.toList.filter (·.isClass) =
      (List.range t.size).flatMap fun i =>
        (countedFrom (fun _ => 0) (numberFiles (t.get i).classes)).map
          (classNode i ((t.get i).documentPath moduleFile)) := by
  have hmodules : ((List.range t.size).map fun i => moduleNode moduleFile (t.get i) i).filter
      (·.isClass) = [] := by
    rw [List.filter_eq_nil_iff]
    intro node hnode
    obtain ⟨i, -, rfl⟩ := List.mem_map.1 hnode
    simp [moduleNode, DiagramNode.isClass]
  rw [nodes_build_empty h, List.filter_append, hmodules, List.nil_append, List.filter_eq_self]
  intro node hnode
  obtain ⟨i, -, hnode⟩ := List.mem_flatMap.1 hnode
  obtain ⟨e, -, rfl⟩ := List.mem_map.1 hnode
  rfl

theorem classIds_eq : classIds t moduleFile =
    (List.range t.size).flatMap fun i => classEntries i (t.get i).classes := by
  rw [classIds, filter_isClass_nodes h, modules_eq h, List.flatMap_map]
  symm
  apply List.zip_of_prod
  · rw [List.map_flatMap]
    apply List.flatMap_congr
    intro i _
    exact map_fst_classEntries i _
  · rw [List.map_flatMap, List.map_flatMap]
    apply List.flatMap_congr
    intro i _
    rw [classEntries, List.map_map, List.map_map]
    rfl

/-- No class is left out. -/
theorem map_fst_classIds : (classIds t moduleFile).map (·.1) = t.modules.flatMap (·.classes) := by
  rw [classIds_eq h, modules_eq h, List.map_flatMap, List.flatMap_map]
  apply List.flatMap_congr
  intro i _
  exact map_fst_classEntries i _

/-- The node with the id of a class tells of this class. -/
theorem exists_node_of_mem_classIds {e : ClassInfo × String} (he : e ∈ classIds t moduleFile) :
    ∃ doc, ⟨e.2, .ofClass e.1.name e.1.loc e.1.methodCount e.1.anchor doc⟩ ∈
      (DiagramModel.build t moduleFile .empty).1.nodes.toList := by
  rw [classIds_eq h, List.mem_flatMap] at he
  obtain ⟨i, hi, he⟩ := he
  obtain ⟨x, hx, rfl⟩ := List.mem_map.1 he
  refine ⟨(t.get i).documentPath moduleFile, ?_⟩
  rw [nodes_build_empty h]
  exact List.mem_append_right _ (List.mem_flatMap.2 ⟨i, hi, List.mem_map_of_mem hx⟩)

/-- The numbers in an id tell the module, the file and the class. -/
theorem exists_of_id_eq {node : DiagramNode} {module file n : Nat}
    (hnode : node ∈ (DiagramModel.build t moduleFile .empty).1.nodes.toList)
    (hid : node.id = IdSupply.classText module file n) :
    ∃ c, (c, file, n) ∈ countedFrom (fun _ => 0) (numberFiles (t.get module).classes) := by
  rw [nodes_build_empty h] at hnode
  rcases List.mem_append.1 hnode with hnode | hnode
  · obtain ⟨i, -, rfl⟩ := List.mem_map.1 hnode
    exact absurd hid (IdSupply.moduleText_ne_classText i module file n)
  · obtain ⟨i, -, hnode⟩ := List.mem_flatMap.1 hnode
    obtain ⟨⟨c, f, k⟩, he, rfl⟩ := List.mem_map.1 hnode
    obtain ⟨rfl, rfl, rfl⟩ := IdSupply.classText_inj.1 hid
    exact ⟨c, he⟩

theorem moduleIds_eq : moduleIds t moduleFile = (List.range t.size).map fun i =>
    (IdSupply.moduleText i, (t.get i).id, (t.get i).displayName,
      if (t.get i).hasContent then some ((t.get i).documentPath moduleFile) else none) := by
  rw [moduleIds, nodes_build_empty h, List.filterMap_append, List.filterMap_map,
    List.filterMap_flatMap]
  have hclasses : ((List.range t.size).flatMap fun i =>
      ((countedFrom (fun _ => 0) (numberFiles (t.get i).classes)).map
        (classNode i ((t.get i).documentPath moduleFile))).filterMap fun node =>
          match node.info with
          | .ofModule id path _ doc => some (node.id, id, path, doc)
          | .ofClass .. => none) = [] := by
    rw [List.flatMap_eq_nil_iff]
    intro i _
    rw [List.filterMap_eq_nil_iff]
    intro node hnode
    obtain ⟨e, -, rfl⟩ := List.mem_map.1 hnode
    rfl
  rw [hclasses, List.append_nil]
  exact congrFun List.filterMap_eq_map' _

theorem exists_mem_moduleIds {i : Nat} (hi : i < t.size) :
    ∃ path doc, (IdSupply.moduleText i, i, path, doc) ∈ moduleIds t moduleFile := by
  have hmem := List.mem_map_of_mem (f := fun i => (IdSupply.moduleText i, (t.get i).id,
    (t.get i).displayName, if (t.get i).hasContent then some ((t.get i).documentPath moduleFile)
      else none)) (List.mem_range.2 hi)
  rw [← moduleIds_eq h, h.get_id hi] at hmem
  exact ⟨_, _, hmem⟩

end Built
end CodeAtlas
