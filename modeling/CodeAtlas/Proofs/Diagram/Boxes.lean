import CodeAtlas.Proofs.Diagram.Reading
import CodeAtlas.Proofs.Diagram.Refinement
import CodeAtlas.Proofs.Module.Totals

/-!
# Boxes of class graphs

The boxes of a class graph are nested as the modules of the scope are. Each has the classes of its
module in it, and these are clicked in the order in which they are declared.
-/
namespace CodeAtlas

/-- The lines of a box, whose label is its id and those of the classes in it. -/
def Nest.brackets : Nest (String × List String) → List DiagramLine
  | .node (id, classes) inner =>
    .opening id :: (classes.map .node ++ inner.flatMap brackets) ++ [.closing]

/-- What is gathered from the lines of a box comes in the order of the labels. -/
theorem Nest.filterMap_brackets {β : Type} {f : DiagramLine → Option β} (hf : f .closing = none) :
    ∀ n : Nest (String × List String), n.brackets.filterMap f = n.labels.flatMap fun label =>
      (f (.opening label.1)).toList ++ label.2.filterMap fun id => f (.node id)
  | .node (id, classes) inner => by
    have ih : inner.flatMap (fun n => n.brackets.filterMap f) = inner.flatMap fun n =>
        n.labels.flatMap fun label =>
          (f (.opening label.1)).toList ++ label.2.filterMap fun id => f (.node id) :=
      List.flatMap_congr fun n _ => filterMap_brackets hf n
    have hopening : ∀ lines, (DiagramLine.opening id :: lines).filterMap f =
        (f (.opening id)).toList ++ lines.filterMap f := by
      intro lines
      cases hid : f (.opening id) with
      | none => rw [List.filterMap_cons_none hid, Option.toList_none, List.nil_append]
      | some b => rw [List.filterMap_cons_some hid, Option.toList_some, List.singleton_append]
    rw [brackets, labels, List.filterMap_append, List.filterMap_cons_none hf, List.filterMap_nil,
      List.append_nil, hopening, List.filterMap_append, List.filterMap_map, List.filterMap_flatMap,
      ih, List.flatMap_cons, List.flatMap_assoc, List.append_assoc]
    rfl

theorem Nest.filterMap_opening?_brackets (n : Nest (String × List String)) :
    n.brackets.filterMap DiagramLine.opening? = n.labels.map (·.1) := by
  rw [filterMap_brackets rfl]
  simp [DiagramLine.opening?, List.map_eq_flatMap]

theorem Nest.filterMap_node?_brackets (n : Nest (String × List String)) :
    n.brackets.filterMap DiagramLine.node? = n.labels.flatMap (·.2) := by
  rw [filterMap_brackets rfl]
  simp [DiagramLine.node?]

/-! ### Ids -/

namespace DiagramModel

def moduleId? (m : DiagramModel) (module : Nat) : Option String :=
  (m.moduleNode? module).map (·.id)

def classIdsOf (m : DiagramModel) (module : Nat) : List String :=
  (m.classNodes module).map (·.id)

def boxLabel? (m : DiagramModel) (module : Nat) : Option (String × List String) :=
  (m.moduleId? module).map fun id => (id, m.classIdsOf module)

section Tree
variable {top : ModuleKey} {t : ModuleTree} (h : Linked top t.nodes.toList) (moduleFile : String)
  (ids : IdSupply)
include h

theorem moduleId?_build {i : Nat} (hi : i < t.size) : (build t moduleFile ids).1.moduleId? i =
    some (IdSupply.moduleText (ids.nextModule + i)) := by
  rw [moduleId?, moduleNode?, position?_build h moduleFile hi, Option.bind_some,
    node?_build_from h moduleFile hi]
  rfl

theorem classIdsOf_build {i : Nat} (hi : i < t.size) : (build t moduleFile ids).1.classIdsOf i =
    (ownNodesFrom ids t moduleFile i).map (·.id) := by
  rw [classIdsOf, classNodes_build h moduleFile ids hi]

theorem boxLabel?_build {i : Nat} (hi : i < t.size) : (build t moduleFile ids).1.boxLabel? i =
    some (IdSupply.moduleText (ids.nextModule + i),
      (ownNodesFrom ids t moduleFile i).map (·.id)) := by
  rw [boxLabel?, moduleId?_build h moduleFile ids hi, classIdsOf_build h moduleFile ids hi,
    Option.map_some]

theorem nodup_moduleIds (i : Nat) :
    ((belowAt t.nodes.toList i).map (build t moduleFile ids).1.moduleId?).Nodup := by
  refine List.Nodup.map_on ?_ ((belowAt_ascending i).imp ne_of_lt)
  intro j hj k hk he
  rw [moduleId?_build h moduleFile ids (mem_belowAt.1 hj).1,
    moduleId?_build h moduleFile ids (mem_belowAt.1 hk).1, Option.some_inj,
    IdSupply.moduleText_inj] at he
  omega

theorem nodup_classIds (i : Nat) :
    ((belowAt t.nodes.toList i).flatMap (build t moduleFile ids).1.classIdsOf).Nodup := by
  refine List.nodup_flatMap.2 ⟨?_, ?_⟩
  · intro j hj
    rw [classIdsOf_build h moduleFile ids (mem_belowAt.1 hj).1, ownNodesFrom, List.map_map]
    have hcounted := nodup_countedFrom (ids.takenFor (ids.nextModule + j))
      (numberFiles (t.get j).classes)
    have htext := hcounted.map (f := fun n => IdSupply.classText (ids.nextModule + j) n.1 n.2) <| by
      intro n n' he
      obtain ⟨-, hfile, hcount⟩ := IdSupply.classText_inj.1 he
      exact Prod.ext hfile hcount
    rwa [List.map_map] at htext
  · refine ((belowAt_ascending i).imp ne_of_lt).imp_of_mem ?_
    intro j k hj hk hne id hidj hidk
    rw [classIdsOf_build h moduleFile ids (mem_belowAt.1 hj).1] at hidj
    rw [classIdsOf_build h moduleFile ids (mem_belowAt.1 hk).1] at hidk
    obtain ⟨node, hnode, rfl⟩ := List.mem_map.1 hidj
    obtain ⟨node', hnode', he⟩ := List.mem_map.1 hidk
    obtain ⟨c, -, file, n, rfl⟩ := exists_of_mem_ownNodesFrom hnode
    obtain ⟨d, -, file', n', rfl⟩ := exists_of_mem_ownNodesFrom hnode'
    obtain ⟨hmodule, -⟩ := IdSupply.classText_inj.1 he
    omega

end Tree
end DiagramModel

/-! ### Boxes -/

/-- A walk through the tree finds the labels of the modules below, in their order. -/
theorem Linked.map_labels {top : ModuleKey} {t : ModuleTree} (h : Linked top t.nodes.toList)
    {α : Type} {label : Nat → Option α} {n : Nest α} {i : Nat} (hi : i < t.size)
    (hn : Unfolds label (fun i => (t.get i).children) i n) :
    n.labels.map some = (belowAt t.nodes.toList i).map label := by
  induction hk : t.size - i using Nat.strongRecOn generalizing i n with
  | ind k ih =>
    cases hn with
    | @node _ a inner ha hinner =>
      have hmem := (List.forall₂_and_left (t.get i).children inner).2 ⟨fun c hc => hc, hinner⟩
      have hbelow : (t.get i).children.flatMap (fun c => (belowAt t.nodes.toList c).map label) =
          inner.flatMap fun n => n.labels.map some := by
        refine flatMap_eq_of_forall₂ (hmem.imp ?_)
        rintro c n ⟨hc, hn⟩
        obtain ⟨hlt, hct⟩ := DiagramModel.lt_of_mem_children h hi hc
        exact (ih (t.size - c) (by omega) hct hn rfl).symm
      rw [Nest.labels, h.belowAt_eq hi, List.map_cons, List.map_cons, List.map_flatMap,
        List.map_flatMap, ha, ← hbelow, ModuleTree.get_children h hi]

/-- In a built tree a diagram leaves out no child. -/
theorem Built.documentedChildren_eq {roots : List ModuleRoot} {classes : List ClassInfo}
    {t : ModuleTree} (h : Built roots classes t) {i : Nat} (hi : i < t.size) :
    t.documentedChildren i = (t.get i).children := by
  rw [ModuleTree.documentedChildren, List.filter_eq_self]
  intro c hc
  obtain ⟨hlt, hct⟩ := DiagramModel.lt_of_mem_children h.linked hi hc
  obtain ⟨j, hj, hclasses⟩ := h.exists_class hct (by omega)
  rw [ModuleTree.subtree_eq h.linked hct] at hj
  obtain ⟨d, hd⟩ := List.exists_mem_of_ne_nil _ hclasses
  have hmem := ((h.mem_get_classes (mem_belowAt.1 hj).1).1 hd).1
  exact h.hasContent (List.ne_nil_of_mem hmem) hct

namespace ClassGraph

section Built
variable {roots : List ModuleRoot} {classes : List ClassInfo} {t : ModuleTree}
  (h : Built roots classes t) (moduleFile : String) (ids : IdSupply) (document : Path)
include h

omit h in
theorem read_classPart (depth i : Nat) :
    (Part.join ((ownNodesFrom ids t moduleFile i).map (classPart document depth))).lines.map
      DiagramLine.read = ((ownNodesFrom ids t moduleFile i).map (·.id)).map .node := by
  rw [Part.join, List.map_flatMap, List.flatMap_map, List.map_map, List.map_eq_flatMap]
  refine List.flatMap_congr fun node hnode => ?_
  obtain ⟨c, -, file, n, rfl⟩ := exists_of_mem_ownNodesFrom hnode
  have hid := DiagramLine.isId_classText (ids.nextModule + i) file n
  rw [classPart, List.map_singleton, DiagramLine.read_node (depth + 1) hid]
  rfl

/-- A box reads as the nest of its modules. -/
theorem read_box {fuel depth i : Nat} {n : Nest (String × List String)} (hi : i < t.size)
    (hfuel : t.size ≤ i + fuel)
    (hn : Unfolds (DiagramModel.build t moduleFile ids).1.boxLabel?
      (fun i => (t.get i).children) i n) :
    (box (DiagramModel.build t moduleFile ids).1 document fuel depth i).lines.map
      DiagramLine.read = n.brackets := by
  induction fuel generalizing depth i n with
  | zero => omega
  | succ fuel ih =>
    cases hn with
    | @node _ label inner hlabel hinner =>
      rw [DiagramModel.boxLabel?_build h.linked moduleFile ids hi] at hlabel
      obtain rfl := Option.some.inj hlabel
      have hmem := (List.forall₂_and_left (t.get i).children inner).2 ⟨fun c hc => hc, hinner⟩
      have hboxes : (t.get i).children.flatMap (fun c =>
          (box (DiagramModel.build t moduleFile ids).1 document fuel (depth + 1) c).lines.map
            DiagramLine.read) = inner.flatMap Nest.brackets := by
        refine flatMap_eq_of_forall₂ (hmem.imp ?_)
        rintro c n ⟨hc, hn⟩
        obtain ⟨hlt, hct⟩ := DiagramModel.lt_of_mem_children h.linked hi hc
        exact ih hct (by omega) hn
      have hid := DiagramLine.isId_moduleText (ids.nextModule + i)
      have hown := read_classPart moduleFile ids document depth i (t := t)
      rw [DiagramModel.box_build h.linked moduleFile document fuel depth hi,
        h.documentedChildren_eq hi]
      simp only [Part.join, List.flatMap_append, List.map_append, List.map_singleton,
        List.flatMap_map, List.map_flatMap] at hown ⊢
      rw [DiagramLine.read_opening depth hid, DiagramLine.read_closing, hown, hboxes,
        Nest.brackets, List.singleton_append]

/-- The clicks of a box are those of the classes that it declares. -/
theorem map_id_clicks_box {fuel depth i : Nat} (hi : i < t.size) (hfuel : t.size ≤ i + fuel) :
    (box (DiagramModel.build t moduleFile ids).1 document fuel depth i).clicks.map (·.id) =
      (belowAt t.nodes.toList i).flatMap (DiagramModel.build t moduleFile ids).1.classIdsOf := by
  induction fuel generalizing depth i with
  | zero => omega
  | succ fuel ih =>
    have hown : (ownNodesFrom ids t moduleFile i).flatMap
        (fun node => (classPart document depth node).clicks.map (·.id)) =
          (ownNodesFrom ids t moduleFile i).map (·.id) := by
      rw [List.map_eq_flatMap]
      refine List.flatMap_congr fun node hnode => ?_
      obtain ⟨c, -, file, n, rfl⟩ := exists_of_mem_ownNodesFrom hnode
      rfl
    have hboxes : (t.get i).children.flatMap (fun c => (box
        (DiagramModel.build t moduleFile ids).1 document fuel (depth + 1) c).clicks.map (·.id)) =
          (t.get i).children.flatMap fun c => (belowAt t.nodes.toList c).flatMap
            (DiagramModel.build t moduleFile ids).1.classIdsOf := by
      refine List.flatMap_congr fun c hc => ?_
      obtain ⟨hlt, hct⟩ := DiagramModel.lt_of_mem_children h.linked hi hc
      exact ih hct (by omega)
    rw [DiagramModel.box_build h.linked moduleFile document fuel depth hi,
      h.documentedChildren_eq hi, h.linked.belowAt_eq hi, List.flatMap_cons,
      DiagramModel.classIdsOf_build h.linked moduleFile ids hi, List.flatMap_assoc]
    simp only [Part.join, List.flatMap_append, List.map_append, List.flatMap_map,
      List.map_flatMap]
    rw [hown, hboxes, ModuleTree.get_children h.linked hi]

end Built

/-! ### Class graphs -/

/-- The part of a class graph behind its first line. -/
def part (m : DiagramModel) (scope : Nat) (document : Path) : Part :=
  match m.position? scope with
  | some position => box m document m.nodes.size 1 position
  | none => ⟨[], []⟩

def lines (m : DiagramModel) (scope : Nat) (direction : Direction) (document : Path) :
    List String :=
  diagramHeader direction :: (part m scope document).lines

theorem generate_eq (m : DiagramModel) (scope : Nat) (direction : Direction) (document : Path) :
    generate m scope direction document = .ofLines .classGraph document
      (lines m scope direction document) (part m scope document).clicks := rfl

/-- Whether a class graph shows the modules from `scope` on and their classes, and no other. -/
structure Shows (t : ModuleTree) (moduleFile : String) (m : DiagramModel) (scope : Nat)
    (graph : Artifact) : Prop where
  /-- Boxes are nested as the modules are in the tree, and behind them come the clicks. -/
  nested : ∃ nest, Unfolds m.boxLabel? (fun i => (t.get i).children) scope nest ∧
    DiagramLine.readAll graph.diagram = .header ::
      (nest.brackets ++ ((t.subtree scope).flatMap m.classIdsOf).map .click)
  /-- There is one box for each module, in the order of the tree. -/
  boxes : ((DiagramLine.readAll graph.diagram).filterMap DiagramLine.opening?).map some =
    (t.subtree scope).map m.moduleId?
  /-- Each class is declared once, and no other node is. -/
  nodes : (DiagramLine.readAll graph.diagram).filterMap DiagramLine.node? =
    (t.subtree scope).flatMap m.classIdsOf
  nodup_boxes : ((t.subtree scope).map m.moduleId?).Nodup
  nodup_nodes : ((t.subtree scope).flatMap m.classIdsOf).Nodup
  links : graph.links.map (·.1) = (t.subtree scope).flatMap m.classIdsOf
  /-- The ids are those of the modules and of their classes, in the order of each module. -/
  infos : ∀ i ∈ t.subtree scope, (m.moduleNode? i).map (·.info) = some ((t.get i).info moduleFile) ∧
    (m.classNodes i).map (·.info) = (t.get i).classInfos moduleFile

section Built
variable {roots : List ModuleRoot} {classes : List ClassInfo} {t : ModuleTree}
  (h : Built roots classes t) (moduleFile : String) (ids : IdSupply) (document : Path)
include h

theorem part_build {scope : Nat} (hscope : scope < t.size) :
    part (DiagramModel.build t moduleFile ids).1 scope document =
      box (DiagramModel.build t moduleFile ids).1 document
        (DiagramModel.build t moduleFile ids).1.nodes.size 1 scope := by
  rw [part, DiagramModel.position?_build h.linked moduleFile hscope]

theorem exists_unfolds_boxLabel? {scope : Nat} (hscope : scope < t.size) :
    ∃ nest, Unfolds (DiagramModel.build t moduleFile ids).1.boxLabel?
      (fun i => (t.get i).children) scope nest := by
  refine exists_unfolds ?_ (fun i hi c hc => DiagramModel.lt_of_mem_children h.linked hi hc) hscope
  intro i hi
  rw [DiagramModel.boxLabel?_build h.linked moduleFile ids hi]
  rfl

/-- The lines of a class graph read as a header and the nest of the modules. -/
theorem read_lines {scope : Nat} (hscope : scope < t.size) (direction : Direction)
    {nest : Nest (String × List String)}
    (hnest : Unfolds (DiagramModel.build t moduleFile ids).1.boxLabel?
      (fun i => (t.get i).children) scope nest) :
    (lines (DiagramModel.build t moduleFile ids).1 scope direction document).map DiagramLine.read =
      .header :: nest.brackets := by
  have hfuel : t.size ≤ scope + (DiagramModel.build t moduleFile ids).1.nodes.size := by
    rw [DiagramModel.size_nodes_build h.linked moduleFile ids]
    omega
  rw [lines, List.map_cons, DiagramLine.read_header, part_build h moduleFile ids document hscope,
    read_box h moduleFile ids document hscope hfuel hnest]

theorem map_id_clicks {scope : Nat} (hscope : scope < t.size) :
    (part (DiagramModel.build t moduleFile ids).1 scope document).clicks.map (·.id) =
      (t.subtree scope).flatMap (DiagramModel.build t moduleFile ids).1.classIdsOf := by
  have hfuel : t.size ≤ scope + (DiagramModel.build t moduleFile ids).1.nodes.size := by
    rw [DiagramModel.size_nodes_build h.linked moduleFile ids]
    omega
  rw [part_build h moduleFile ids document hscope,
    map_id_clicks_box h moduleFile ids document hscope hfuel,
    ModuleTree.subtree_eq h.linked hscope]

theorem readAll_generate (ht : t.Inline moduleFile) {scope : Nat} (hscope : scope < t.size)
    (direction : Direction) :
    DiagramLine.readAll
        (generate (DiagramModel.build t moduleFile ids).1 scope direction document).diagram =
      (lines (DiagramModel.build t moduleFile ids).1 scope direction document).map
          DiagramLine.read ++
        ((t.subtree scope).flatMap (DiagramModel.build t moduleFile ids).1.classIdsOf).map
          .click := by
  have hwritten : (part (DiagramModel.build t moduleFile ids).1 scope document).IsWritten t
      moduleFile ids document := by
    rw [part_build h moduleFile ids document hscope]
    exact written_box h.linked document hscope
  have hlines : ∀ line ∈ lines (DiagramModel.build t moduleFile ids).1 scope direction document,
      OneLine line := by
    intro line hline
    rcases List.mem_cons.1 hline with rfl | hline
    · cases direction <;> decide
    · exact ((hwritten.1 line hline).plain ht).1
  have hne : lines (DiagramModel.build t moduleFile ids).1 scope direction document ≠ [] :=
    List.cons_ne_nil _ _
  have hids : ∀ click ∈ (part (DiagramModel.build t moduleFile ids).1 scope document).clicks,
      DiagramLine.IsId click.id := fun click hclick => (hwritten.2 click hclick).isId
  rw [generate_eq, DiagramLine.readAll_ofLines _ _ hne hlines
    (fun click hclick => (hwritten.2 click hclick).inline ht), List.map_append,
    DiagramLine.read_clicks hids, map_id_clicks h moduleFile ids document hscope]

/-- Boxes as labelled are those of the modules below, in their order. -/
theorem filterMap_opening?_lines {scope : Nat} (hscope : scope < t.size) (direction : Direction) :
    (((lines (DiagramModel.build t moduleFile ids).1 scope direction document).map
        DiagramLine.read).filterMap DiagramLine.opening?).map some =
      (t.subtree scope).map (DiagramModel.build t moduleFile ids).1.moduleId? := by
  obtain ⟨nest, hnest⟩ := exists_unfolds_boxLabel? h moduleFile ids hscope
  have hlabels := congrArg (List.map (Option.map (·.1))) (h.linked.map_labels hscope hnest)
  rw [read_lines h moduleFile ids document hscope direction hnest,
    List.filterMap_cons_none rfl, Nest.filterMap_opening?_brackets,
    ModuleTree.subtree_eq h.linked hscope]
  rw [List.map_map, List.map_map] at hlabels
  rw [List.map_map]
  refine hlabels.trans ?_
  refine List.map_congr_left fun i _ => ?_
  rw [Function.comp_apply, DiagramModel.boxLabel?, Option.map_map]
  exact Option.map_id'

/-- The classes that are declared are those of the modules below, in their order. -/
theorem filterMap_node?_lines {scope : Nat} (hscope : scope < t.size) (direction : Direction) :
    ((lines (DiagramModel.build t moduleFile ids).1 scope direction document).map
        DiagramLine.read).filterMap DiagramLine.node? =
      (t.subtree scope).flatMap (DiagramModel.build t moduleFile ids).1.classIdsOf := by
  obtain ⟨nest, hnest⟩ := exists_unfolds_boxLabel? h moduleFile ids hscope
  have hlabels := congrArg (List.flatMap fun label => (label.map (·.2)).getD [])
    (h.linked.map_labels hscope hnest)
  rw [List.flatMap_map, List.flatMap_map] at hlabels
  rw [read_lines h moduleFile ids document hscope direction hnest,
    List.filterMap_cons_none rfl, Nest.filterMap_node?_brackets,
    ModuleTree.subtree_eq h.linked hscope]
  refine hlabels.trans (List.flatMap_congr fun i hi => ?_)
  have hi := (mem_belowAt.1 hi).1
  rw [DiagramModel.boxLabel?_build h.linked moduleFile ids hi,
    DiagramModel.classIdsOf_build h.linked moduleFile ids hi]
  rfl

theorem shows_generate (ht : t.Inline moduleFile) {scope : Nat} (hscope : scope < t.size)
    (direction : Direction) : Shows t moduleFile (DiagramModel.build t moduleFile ids).1 scope
      (generate (DiagramModel.build t moduleFile ids).1 scope direction document) := by
  have hread := readAll_generate h moduleFile ids document ht hscope direction
  have hopening : ∀ names : List String,
      (names.map DiagramLine.click).filterMap DiagramLine.opening? = [] := by
    intro names
    simp [DiagramLine.opening?]
  have hnode : ∀ names : List String,
      (names.map DiagramLine.click).filterMap DiagramLine.node? = [] := by
    intro names
    simp [DiagramLine.node?]
  constructor
  case nested =>
    obtain ⟨nest, hnest⟩ := exists_unfolds_boxLabel? h moduleFile ids hscope
    refine ⟨nest, hnest, ?_⟩
    rw [hread, read_lines h moduleFile ids document hscope direction hnest, List.cons_append]
  case boxes =>
    rw [hread, List.filterMap_append, hopening, List.append_nil,
      filterMap_opening?_lines h moduleFile ids document hscope direction]
  case nodes =>
    rw [hread, List.filterMap_append, hnode, List.append_nil,
      filterMap_node?_lines h moduleFile ids document hscope direction]
  case nodup_boxes =>
    rw [ModuleTree.subtree_eq h.linked hscope]
    exact DiagramModel.nodup_moduleIds h.linked moduleFile ids scope
  case nodup_nodes =>
    rw [ModuleTree.subtree_eq h.linked hscope]
    exact DiagramModel.nodup_classIds h.linked moduleFile ids scope
  case links =>
    rw [generate_eq, Artifact.map_fst_links_ofLines, map_id_clicks h moduleFile ids document hscope]
  case infos =>
    intro i hi
    rw [ModuleTree.subtree_eq h.linked hscope] at hi
    have hi := (mem_belowAt.1 hi).1
    rw [DiagramModel.moduleNode?, DiagramModel.position?_build h.linked moduleFile hi,
      Option.bind_some, DiagramModel.node?_build_from h.linked moduleFile hi,
      DiagramModel.classNodes_build h.linked moduleFile ids hi, map_info_ownNodesFrom]
    exact ⟨rfl, rfl⟩

end Built

/-- Where no name has a line feed, a class graph of a built tree shows what is in its scope,
whatever ids are left and wherever the document is. -/
theorem aggregate_shows {rootPaths : List Path} {files : List SourceFile}
    {classes : List ClassInfo} {moduleFile : String} {scope : Nat}
    (hscope : scope < (aggregate rootPaths files classes).tree.size)
    (hinline : (aggregate rootPaths files classes).tree.Inline moduleFile) (ids : IdSupply)
    (direction : Direction) (document : Path) :
    Shows (aggregate rootPaths files classes).tree moduleFile
      (DiagramModel.build (aggregate rootPaths files classes).tree moduleFile ids).1 scope
      (generate (DiagramModel.build (aggregate rootPaths files classes).tree moduleFile ids).1
        scope direction document) :=
  shows_generate (aggregate_built rootPaths files classes) moduleFile ids document hinline hscope
    direction

/-- The scope is a directory below the root, with two classes in it and one below it. -/
theorem shows_nestedModules :
    let t := (aggregate [⟨"/r"⟩] [] [⟨"A", ⟨"/r/a.py"⟩, 1, 0, 1, 1⟩,
      ⟨"B", ⟨"/r/lib/b.py"⟩, 2, 1, 1, 2⟩, ⟨"C[0]", ⟨"/r/lib/b.py"⟩, 1, 0, 4, 4⟩,
      ⟨"end", ⟨"/r/lib/net/d.py"⟩, 3, 0, 1, 3⟩]).tree
    1 < t.size ∧ t.Inline "README.md" ∧ Shows t "README.md"
      (DiagramModel.build t "README.md" ⟨2, []⟩).1 1
      (generate (DiagramModel.build t "README.md" ⟨2, []⟩).1 1 .down ⟨"docs/lib.md"⟩) := by
  intro t
  have hscope : 1 < t.size := by decide +kernel
  have hinline : t.Inline "README.md" :=
    inline_of_built (aggregate_built _ _ _) (by decide) (by decide +kernel) (by decide)
  exact ⟨hscope, hinline, aggregate_shows hscope hinline _ _ _⟩

end ClassGraph
end CodeAtlas
