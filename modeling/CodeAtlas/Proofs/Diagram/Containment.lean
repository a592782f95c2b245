import CodeAtlas.Diagram.ClassGraph
import CodeAtlas.Diagram.ComponentTree
import CodeAtlas.Proofs.Diagram.ClassIds

namespace CodeAtlas

theorem flatMap_range_ite {α : Type} (f : Nat → List α) (n i : Nat) :
    ((List.range n).flatMap fun j => if j = i then f j else []) = if i < n then f i else [] := by
  induction n with
  | zero => simp
  | succ n ih =>
    rw [List.range_succ, List.flatMap_append, ih, List.flatMap_singleton]
    rcases lt_trichotomy i n with hi | rfl | hi
    · rw [if_pos hi, if_neg (by omega), if_pos (by omega), List.append_nil]
    · rw [if_neg (by omega), if_pos rfl, if_pos (by omega), List.nil_append]
    · rw [if_neg (by omega), if_neg (by omega), if_neg (by omega), List.append_nil]

theorem filterMap_zipIdx {α β : Type} (p : α → Bool) {xs : List α} {ys : List β} (before : List β)
    (h : xs.length = ys.length) :
    (((xs.zipIdx before.length).filter fun e => p e.1).map (·.2)).filterMap
        (fun q => (before ++ ys)[q]?) = ((xs.zip ys).filter fun e => p e.1).map (·.2) := by
  induction xs generalizing ys before with
  | nil => simp
  | cons x xs ih =>
    cases ys with
    | nil => simp at h
    | cons y ys =>
      have hrest := ih (before ++ [y]) (by simpa using h)
      rw [List.append_assoc, List.singleton_append, List.length_append, List.length_singleton]
        at hrest
      have hy : (before ++ y :: ys)[before.length]? = some y := by simp
      rw [List.zipIdx_cons, List.zip_cons_cons, List.filter_cons, List.filter_cons]
      cases hx : p x with
      | false => exact hrest
      | true =>
        rw [if_pos rfl, if_pos rfl, List.map_cons, List.map_cons, List.filterMap_cons_some hy,
          hrest]

def moduleEdge? (t : ModuleTree) (i : Nat) : Option ContainmentEdge :=
  (t.get i).parent.map fun p => ⟨p, i, .childModule⟩

def classEdge (e : Nat × Nat) : ContainmentEdge := ⟨e.1, e.2, .ownClass⟩

def classOwners (t : ModuleTree) : List Nat :=
  (List.range t.size).flatMap fun i => List.replicate (t.get i).classes.length i

def ownNodes (t : ModuleTree) (moduleFile : String) (i : Nat) : List DiagramNode :=
  (countedFrom (fun _ => 0) (numberFiles (t.get i).classes)).map
    (classNode i ((t.get i).documentPath moduleFile))

theorem ownNodesFrom_empty (t : ModuleTree) (moduleFile : String) (i : Nat) :
    ownNodesFrom .empty t moduleFile i = ownNodes t moduleFile i := by
  have hnext : IdSupply.empty.nextModule + i = i := Nat.zero_add i
  have htaken : IdSupply.empty.takenFor i = fun _ => 0 := rfl
  rw [ownNodesFrom, ownNodes, hnext, htaken]

theorem map_info_ownNodesFrom (ids : IdSupply) (t : ModuleTree) (moduleFile : String) (i : Nat) :
    (ownNodesFrom ids t moduleFile i).map (·.info) = (t.get i).classes.map fun c =>
      .ofClass c.name c.loc c.methodCount c.anchor ((t.get i).documentPath moduleFile) := by
  have hclasses : (countedFrom (ids.takenFor (ids.nextModule + i))
      (numberFiles (t.get i).classes)).map (·.1) = (t.get i).classes := by
    rw [map_fst_countedFrom, map_snd_numberFiles]
  conv_rhs => rw [← hclasses]
  rw [ownNodesFrom, List.map_map, List.map_map]
  rfl

theorem length_ownNodesFrom (ids : IdSupply) (t : ModuleTree) (moduleFile : String) (i : Nat) :
    (ownNodesFrom ids t moduleFile i).length = (t.get i).classes.length := by
  have hinfo := congrArg List.length (map_info_ownNodesFrom ids t moduleFile i)
  rwa [List.length_map, List.length_map] at hinfo

theorem exists_of_mem_ownNodesFrom {ids : IdSupply} {t : ModuleTree} {moduleFile : String} {i : Nat}
    {node : DiagramNode} (h : node ∈ ownNodesFrom ids t moduleFile i) :
    ∃ c ∈ (t.get i).classes, ∃ file n,
      node = ⟨IdSupply.classText (ids.nextModule + i) file n,
        .ofClass c.name c.loc c.methodCount c.anchor ((t.get i).documentPath moduleFile)⟩ := by
  obtain ⟨e, he, rfl⟩ := List.mem_map.1 h
  have hclass := List.mem_map_of_mem (f := (·.1)) he
  rw [map_fst_countedFrom, map_snd_numberFiles] at hclass
  exact ⟨e.1, hclass, e.2.1, e.2.2, rfl⟩

theorem exists_of_mem_ownNodes {t : ModuleTree} {moduleFile : String} {i : Nat} {node : DiagramNode}
    (h : node ∈ ownNodes t moduleFile i) :
    ∃ c ∈ (t.get i).classes, ∃ file n, node = ⟨IdSupply.classText i file n,
      .ofClass c.name c.loc c.methodCount c.anchor ((t.get i).documentPath moduleFile)⟩ := by
  rw [← ownNodesFrom_empty] at h
  obtain ⟨c, hc, file, n, rfl⟩ := exists_of_mem_ownNodesFrom h
  have hnext : IdSupply.empty.nextModule + i = i := Nat.zero_add i
  exact ⟨c, hc, file, n, by rw [hnext]⟩

theorem zip_classOwners (ids : IdSupply) (t : ModuleTree) (moduleFile : String) :
    (classOwners t).zip ((List.range t.size).flatMap (ownNodesFrom ids t moduleFile)) =
      (List.range t.size).flatMap fun i => (ownNodesFrom ids t moduleFile i).map (i, ·) := by
  symm
  apply List.zip_of_prod
  · rw [List.map_flatMap]
    apply List.flatMap_congr
    intro i _
    rw [List.map_map, ← length_ownNodesFrom ids t moduleFile]
    exact List.map_const'
  · rw [List.map_flatMap]
    apply List.flatMap_congr
    intro i _
    rw [List.map_map]
    exact List.map_id (ownNodesFrom ids t moduleFile i)

theorem filter_moduleEdge (t : ModuleTree) (i : Nat) :
    ((List.range t.size).filterMap (moduleEdge? t)).filter
      (fun e => e.source = i && e.kind = .ownClass) = [] := by
  rw [List.filter_eq_nil_iff]
  intro e he
  obtain ⟨j, -, hj⟩ := List.mem_filterMap.1 he
  obtain ⟨p, -, rfl⟩ := Option.map_eq_some_iff.1 hj
  simp

def ModuleTree.documentedChildren (t : ModuleTree) (i : Nat) : List Nat :=
  (t.get i).children.filter fun c => (t.get c).hasContent

namespace DiagramModel

def moduleNode? (m : DiagramModel) (module : Nat) : Option DiagramNode :=
  (m.position? module).bind m.node?

def classNodes (m : DiagramModel) (module : Nat) : List DiagramNode :=
  match m.position? module with
  | some position => (m.contained position .ownClass).filterMap m.node?
  | none => []

theorem foldl_addClass_edges (position ordinal : Nat) (doc : Path) (xs : List (Nat × ClassInfo))
    (draft : Draft) :
    (xs.foldl (addClass position ordinal doc) draft).1.edges = draft.1.edges ++
        ((List.replicate xs.length position).zipIdx draft.1.nodes.size).map classEdge ∧
      (xs.foldl (addClass position ordinal doc) draft).1.positions = draft.1.positions ∧
      (xs.foldl (addClass position ordinal doc) draft).1.nodes.size =
        draft.1.nodes.size + xs.length := by
  induction xs generalizing draft with
  | nil => simp
  | cons x xs ih =>
    obtain ⟨hedges, hpositions, hsize⟩ := ih (addClass position ordinal doc draft x)
    have hone : (addClass position ordinal doc draft x).1.nodes.size =
        draft.1.nodes.size + 1 := by simp [addClass]
    rw [List.foldl_cons, hedges, hpositions, hsize, hone]
    refine ⟨?_, rfl, by rw [List.length_cons]; omega⟩
    rw [List.length_cons, List.replicate_succ, List.zipIdx_cons, List.map_cons]
    simp [addClass, classEdge]

theorem foldl_addClasses_edges (moduleFile : String) (ns : List (ModuleNode × Nat × Nat))
    (draft : Draft) :
    (ns.foldl (addClasses moduleFile) draft).1.edges = draft.1.edges ++
        ((ns.flatMap fun n => List.replicate n.1.classes.length n.2.1).zipIdx
          draft.1.nodes.size).map classEdge ∧
      (ns.foldl (addClasses moduleFile) draft).1.positions = draft.1.positions := by
  induction ns generalizing draft with
  | nil => simp
  | cons n ns ih =>
    obtain ⟨node, position, ordinal⟩ := n
    have hlength : (numberFiles node.classes).length = node.classes.length := by
      rw [← map_snd_numberFiles node.classes, List.length_map, map_snd_numberFiles]
    obtain ⟨hedges, hpositions⟩ := ih (addClasses moduleFile draft (node, position, ordinal))
    obtain ⟨hown, hkept, hsize⟩ := foldl_addClass_edges position ordinal
      (node.documentPath moduleFile) (numberFiles node.classes) draft
    rw [List.foldl_cons, hedges, hpositions, addClasses, hown, hkept, hsize, hlength]
    refine ⟨?_, rfl⟩
    rw [List.flatMap_cons, List.zipIdx_append, List.map_append, List.length_replicate,
      List.append_assoc]

section Tree
variable {top : ModuleKey} {t : ModuleTree} {ids : IdSupply} (h : Linked top t.nodes.toList)
  (moduleFile : String)

theorem lookup_map_range (k p : Nat) :
    ((List.range k).map fun i => (i, i)).lookup p = if p < k then some p else none := by
  induction k with
  | zero => rfl
  | succ k ih =>
    rw [List.range_succ, List.map_append, List.lookup_append, ih]
    rcases lt_trichotomy p k with hp | rfl | hp
    · simp [hp, Nat.lt_succ_of_lt hp]
    · simp
    · have hne : (p == k) = false := beq_false_of_ne hp.ne'
      simp [List.lookup_cons, hne, show ¬ p < k by omega, show ¬ p < k + 1 by omega]

include h

/-- The modules so far: a parent has its node before its children. -/
theorem foldl_addModule_range {k : Nat} (hk : k ≤ t.size) :
    (((List.range k).map t.get).foldl (addModule moduleFile) (empty, ids)).1.nodes.size = k ∧
      (((List.range k).map t.get).foldl (addModule moduleFile) (empty, ids)).1.edges =
        (List.range k).filterMap (moduleEdge? t) ∧
      (((List.range k).map t.get).foldl (addModule moduleFile) (empty, ids)).1.positions =
        (List.range k).map fun i => (i, i) := by
  induction k with
  | zero => exact ⟨rfl, rfl, rfl⟩
  | succ k ih =>
    obtain ⟨hsize, hedges, hpositions⟩ := ih (by omega)
    rw [List.range_succ, List.map_append, List.foldl_append, List.filterMap_append,
      List.map_append, List.map_singleton, List.foldl_cons, List.foldl_nil]
    generalize ((List.range k).map t.get).foldl (addModule moduleFile) (empty, ids) = draft
      at hsize hedges hpositions
    have hid : (t.get k).id = k := h.get_id hk
    refine ⟨by simp [addModule, hsize], ?_, by simp [addModule, hpositions, hid, hsize]⟩
    simp only [addModule, hedges, hpositions, hsize]
    congr 1
    cases hp : (t.get k).parent with
    | none => simp [moduleEdge?, hp]
    | some p =>
      have hlt : p < k := h.parentAt_lt ((ModuleTree.get_parent hk).symm.trans hp)
      simp [moduleEdge?, hp, lookup_map_range, hlt]

theorem edges_build : (build t moduleFile ids).1.edges =
    (List.range t.size).filterMap (moduleEdge? t) ++
      ((classOwners t).zipIdx t.size).map classEdge := by
  obtain ⟨hsize, hedges, -⟩ := foldl_addModule_range h moduleFile (Nat.le_refl t.size)
  rw [build, modules_eq h, (foldl_addClasses_edges _ _ _).1, hedges, hsize, zipIdx_map_range,
    List.map_map, List.flatMap_map]
  rfl

theorem position?_build_from (i : Nat) :
    (build t moduleFile ids).1.position? i = if i < t.size then some i else none := by
  obtain ⟨-, -, hpositions⟩ := foldl_addModule_range h moduleFile (Nat.le_refl t.size)
  rw [position?, build, modules_eq h, (foldl_addClasses_edges _ _ _).2, hpositions,
    lookup_map_range]

theorem position?_build {i : Nat} (hi : i < t.size) :
    (build t moduleFile ids).1.position? i = some i := by
  rw [position?_build_from h, if_pos hi]

theorem node?_build_from {i : Nat} (hi : i < t.size) : (build t moduleFile ids).1.node? i =
    some (moduleNode moduleFile (t.get i) (ids.nextModule + i)) := by
  rw [node?, ← Array.getElem?_toList, nodes_build_from h, List.getElem?_append_left (by simpa)]
  simp [hi]

theorem node?_build {i : Nat} (hi : i < t.size) :
    (build t moduleFile .empty).1.node? i = some (moduleNode moduleFile (t.get i) i) := by
  have hnext : IdSupply.empty.nextModule + i = i := Nat.zero_add i
  rw [node?_build_from h moduleFile hi, hnext]

theorem contained_childModule {i : Nat} (hi : i < t.size) :
    (build t moduleFile ids).1.contained i .childModule = (t.get i).children := by
  have hclasses : (((classOwners t).zipIdx t.size).map classEdge).filter
      (fun e => e.source = i && e.kind = .childModule) = [] := by
    rw [List.filter_eq_nil_iff]
    intro e he
    obtain ⟨x, -, rfl⟩ := List.mem_map.1 he
    simp [classEdge]
  have hedge : ∀ j ∈ List.range t.size,
      ((moduleEdge? t j).filter fun e => e.source = i && e.kind = .childModule).map (·.target) =
        Option.guard (fun j => decide (parentAt t.nodes.toList j = some i)) j := by
    intro j hj
    rw [moduleEdge?, ModuleTree.get_parent (List.mem_range.1 hj)]
    cases hp : parentAt t.nodes.toList j with
    | none => simp [Option.guard, hp]
    | some p => by_cases he : p = i <;> simp [Option.guard, Option.filter, hp, he]
  rw [contained, edges_build h, List.filter_append, hclasses, List.append_nil,
    List.filter_filterMap, List.map_filterMap, List.filterMap_congr hedge,
    List.filterMap_eq_filter, ModuleTree.get_children h hi, childrenAt, t.length_toList]

theorem contained_ownClass_from {i : Nat} (hi : i < t.size) :
    ((build t moduleFile ids).1.contained i .ownClass).filterMap
      (build t moduleFile ids).1.node? = ownNodesFrom ids t moduleFile i := by
  let modules := (List.range t.size).map fun j =>
    moduleNode moduleFile (t.get j) (ids.nextModule + j)
  let classes := (List.range t.size).flatMap (ownNodesFrom ids t moduleFile)
  have hnode : (build t moduleFile ids).1.node? = fun q => (modules ++ classes)[q]? := by
    funext q
    rw [node?, ← Array.getElem?_toList, nodes_build_from h]
  have hcontained : (build t moduleFile ids).1.contained i .ownClass =
      (((classOwners t).zipIdx modules.length).filter fun e => decide (e.1 = i)).map (·.2) := by
    have hsize : modules.length = t.size := by simp [modules]
    rw [contained, edges_build h, List.filter_append, filter_moduleEdge, List.nil_append,
      List.filter_map, List.map_map, hsize]
    simp only [Function.comp_def, classEdge, decide_true, Bool.and_true]
    rfl
  have hlength : (classOwners t).length = classes.length := by
    simp [classOwners, classes, List.length_flatMap, length_ownNodesFrom]
  have hown : ∀ j ∈ List.range t.size,
      (((ownNodesFrom ids t moduleFile j).map (j, ·)).filter fun e => decide (e.1 = i)).map (·.2) =
        if j = i then ownNodesFrom ids t moduleFile j else [] := by
    intro j _
    by_cases hj : j = i <;> simp [hj, List.filter_map, Function.comp_def]
  rw [hnode, hcontained, filterMap_zipIdx (fun j => decide (j = i)) modules hlength,
    zip_classOwners, List.filter_flatMap, List.map_flatMap, List.flatMap_congr hown,
    flatMap_range_ite, if_pos hi]

theorem contained_ownClass {i : Nat} (hi : i < t.size) :
    ((build t moduleFile .empty).1.contained i .ownClass).filterMap
      (build t moduleFile .empty).1.node? = ownNodes t moduleFile i := by
  rw [contained_ownClass_from h moduleFile hi, ownNodesFrom_empty]

theorem shownChildren_build {i : Nat} (hi : i < t.size) :
    (build t moduleFile ids).1.shownChildren i = t.documentedChildren i := by
  rw [shownChildren, contained_childModule h moduleFile hi]
  apply List.filter_congr
  intro c hc
  rw [ModuleTree.get_children h hi] at hc
  rw [hasContent, node?_build_from h moduleFile (mem_childrenAt.1 hc).1]
  rfl

theorem lt_of_mem_documentedChildren {i c : Nat} (hi : i < t.size)
    (hc : c ∈ t.documentedChildren i) : c < t.size := by
  have hchild := (List.mem_filter.1 hc).1
  rw [ModuleTree.get_children h hi] at hchild
  exact (mem_childrenAt.1 hchild).1

theorem idOf_build {i : Nat} (hi : i < t.size) : ComponentTree.idOf (build t moduleFile ids).1 i =
    IdSupply.moduleText (ids.nextModule + i) := by
  rw [ComponentTree.idOf, node?_build_from h moduleFile hi]
  rfl

theorem box_build (document : Path) (fuel depth : Nat) {i : Nat} (hi : i < t.size) :
    ClassGraph.box (build t moduleFile ids).1 document (fuel + 1) depth i =
      let inner := ClassGraph.Part.join
        ((ownNodesFrom ids t moduleFile i).map (ClassGraph.classPart document depth) ++
          (t.documentedChildren i).map
            (ClassGraph.box (build t moduleFile ids).1 document fuel (depth + 1)))
      ⟨[ClassGraph.indent depth ++ "subgraph " ++ IdSupply.moduleText (ids.nextModule + i) ++
          quoted (escapeLabel (t.get i).displayName ++ "<br/>" ++ (t.get i).stats.label)] ++
        inner.lines ++ [ClassGraph.indent depth ++ "end"], inner.clicks⟩ := by
  rw [ClassGraph.box, node?_build_from h moduleFile hi]
  simp only [moduleNode, contained_ownClass_from h moduleFile hi,
    shownChildren_build h moduleFile hi]

theorem lt_of_mem_walk {fuel : Nat} {stack : List Nat} (hstack : ∀ i ∈ stack, i < t.size) {i : Nat}
    (hi : i ∈ ComponentTree.walk (build t moduleFile ids).1 fuel stack) : i < t.size := by
  induction fuel generalizing stack with
  | zero => simp [ComponentTree.walk] at hi
  | succ fuel ih =>
    cases stack with
    | nil => simp [ComponentTree.walk] at hi
    | cons j stack =>
      rw [ComponentTree.walk] at hi
      rcases List.mem_cons.1 hi with rfl | hi
      · exact hstack i List.mem_cons_self
      · apply ih _ hi
        intro c hc
        rcases List.mem_append.1 hc with hc | hc
        · have hj := hstack j List.mem_cons_self
          rw [shownChildren_build h moduleFile hj] at hc
          exact lt_of_mem_documentedChildren h hj hc
        · exact hstack c (List.mem_cons_of_mem j hc)

end Tree
end DiagramModel
end CodeAtlas
