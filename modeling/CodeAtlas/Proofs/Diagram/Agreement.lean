import Mathlib.Logic.Relation
import CodeAtlas.Proofs.Diagram.Boxes

/-!
# Component trees and class graphs

A component tree declares a node for each module that a class graph of the same scope has a box
for, in the same order. Its edges are those from the modules to their children, so that all nodes
hang below that of the scope.
-/
namespace CodeAtlas

/-! ### Edges of a tree -/

/-- The modules below one with their children. -/
def childPairs (t : ModuleTree) (scope : Nat) : List (Nat × Nat) :=
  (t.subtree scope).flatMap fun i => (t.get i).children.map (i, ·)

section Tree
variable {top : ModuleKey} {t : ModuleTree} (h : Linked top t.nodes.toList) {scope : Nat}
  (hscope : scope < t.size)
include h hscope

theorem mem_childPairs {p c : Nat} : (p, c) ∈ childPairs t scope ↔
    c ∈ belowAt t.nodes.toList scope ∧ c ≠ scope ∧ parentAt t.nodes.toList c = some p := by
  rw [childPairs, ModuleTree.subtree_eq h hscope, List.mem_flatMap]
  constructor
  · rintro ⟨i, hi, hmem⟩
    obtain ⟨c, hc, he⟩ := List.mem_map.1 hmem
    obtain ⟨rfl, rfl⟩ := Prod.mk.inj he
    rw [ModuleTree.get_children h (mem_belowAt.1 hi).1] at hc
    have hparent := (mem_childrenAt.1 hc).2
    have hle := h.le_of_mem_belowAt hscope hi
    have hlt := h.parentAt_lt hparent
    exact ⟨h.mem_belowAt_of_parentAt hparent hi, by omega, hparent⟩
  · rintro ⟨hc, hne, hparent⟩
    have hp := h.mem_belowAt_parent hparent hc hne hscope
    refine ⟨p, hp, List.mem_map_of_mem ?_⟩
    rw [ModuleTree.get_children h (mem_belowAt.1 hp).1]
    exact mem_childrenAt.2 ⟨(mem_belowAt.1 hc).1, hparent⟩

theorem mem_subtree_of_mem_childPairs {e : Nat × Nat} (he : e ∈ childPairs t scope) :
    e.1 ∈ t.subtree scope ∧ e.2 ∈ t.subtree scope := by
  obtain ⟨hc, hne, hparent⟩ := (mem_childPairs h hscope).1 he
  rw [ModuleTree.subtree_eq h hscope]
  exact ⟨h.mem_belowAt_parent hparent hc hne hscope, hc⟩

theorem mem_tail_subtree {i : Nat} :
    i ∈ (t.subtree scope).tail ↔ i ∈ belowAt t.nodes.toList scope ∧ i ≠ scope := by
  have hnodup : (belowAt t.nodes.toList scope).Nodup := (belowAt_ascending scope).imp ne_of_lt
  rw [h.belowAt_eq hscope, List.nodup_cons] at hnodup
  rw [ModuleTree.subtree_eq h hscope, h.belowAt_eq hscope, List.tail_cons, List.mem_cons]
  constructor
  · intro hi
    exact ⟨Or.inr hi, fun he => hnodup.1 (he ▸ hi)⟩
  · rintro ⟨hi, hne⟩
    exact hi.resolve_left hne

/-- There is one pair for each module below, with its own parent. -/
theorem childPairs_perm : ((childPairs t scope).map fun e => (some e.1, e.2)).Perm
    ((t.subtree scope).tail.map fun i => ((t.get i).parent, i)) := by
  have hbelow : (belowAt t.nodes.toList scope).Nodup := (belowAt_ascending scope).imp ne_of_lt
  have hleft : ((childPairs t scope).map fun e => (some e.1, e.2)).Nodup := by
    refine List.Nodup.map (fun e e' he => ?_) (List.nodup_flatMap.2 ⟨?_, ?_⟩)
    · obtain ⟨hp, hc⟩ := Prod.mk.inj he
      exact Prod.ext (Option.some.inj hp) hc
    · intro i hi
      rw [ModuleTree.subtree_eq h hscope] at hi
      rw [ModuleTree.get_children h (mem_belowAt.1 hi).1]
      exact (List.nodup_range.filter _).map fun _ _ he => (Prod.mk.inj he).2
    · rw [ModuleTree.subtree_eq h hscope]
      refine hbelow.imp fun {i j} hne e hi hj => hne ?_
      obtain ⟨c, -, rfl⟩ := List.mem_map.1 hi
      obtain ⟨d, -, he⟩ := List.mem_map.1 hj
      exact (Prod.mk.inj he).1.symm
  have hright : ((t.subtree scope).tail.map fun i => ((t.get i).parent, i)).Nodup := by
    rw [ModuleTree.subtree_eq h hscope]
    exact hbelow.tail.map fun _ _ he => (Prod.mk.inj he).2
  refine (List.perm_ext_iff_of_nodup hleft hright).2 ?_
  rintro ⟨p, c⟩
  rw [List.mem_map, List.mem_map]
  constructor
  · rintro ⟨⟨q, d⟩, hmem, he⟩
    obtain ⟨rfl, rfl⟩ := Prod.mk.inj he
    obtain ⟨hd, hne, hparent⟩ := (mem_childPairs h hscope).1 hmem
    refine ⟨d, (mem_tail_subtree h hscope).2 ⟨hd, hne⟩, ?_⟩
    rw [ModuleTree.get_parent (mem_belowAt.1 hd).1, hparent]
  · rintro ⟨d, hd, he⟩
    obtain ⟨rfl, rfl⟩ := Prod.mk.inj he
    obtain ⟨hd, hne⟩ := (mem_tail_subtree h hscope).1 hd
    have hdt := (mem_belowAt.1 hd).1
    obtain ⟨q, hq⟩ := h.exists_parentAt hdt (h.keyAt_ne_top_of_mem_belowAt hscope hd hne)
    refine ⟨(q, d), (mem_childPairs h hscope).2 ⟨hd, hne, hq⟩, ?_⟩
    rw [ModuleTree.get_parent hdt, hq]

/-- All modules below are reached from child to child. -/
theorem reflTransGen_childPairs {i : Nat} (hi : i ∈ t.subtree scope) :
    Relation.ReflTransGen (fun p c => (p, c) ∈ childPairs t scope) scope i := by
  rw [ModuleTree.subtree_eq h hscope] at hi
  induction i using Nat.strongRecOn with
  | ind i ih =>
    by_cases hne : i = scope
    · rw [hne]
    · have hit := (mem_belowAt.1 hi).1
      obtain ⟨p, hp⟩ := h.exists_parentAt hit (h.keyAt_ne_top_of_mem_belowAt hscope hi hne)
      have hreached := ih p (h.parentAt_lt hp) (h.mem_belowAt_parent hp hi hne hscope)
      exact hreached.tail ((mem_childPairs h hscope).2 ⟨hi, hne, hp⟩)

end Tree

/-! ### Component trees -/

namespace ComponentTree

/-- The modules that a component tree shows, as positions of their nodes. -/
def positions (m : DiagramModel) (scope : Nat) : List Nat :=
  walk m m.nodes.size (m.position? scope).toList

/-- The lines of a component tree before the clicks. -/
def lines (m : DiagramModel) (scope : Nat) (direction : Direction) : List String :=
  diagramHeader direction ::
    ((positions m scope).filterMap (nodeLine m) ++ (positions m scope).flatMap (edgeLines m))

def clicks (m : DiagramModel) (scope : Nat) (document : Path) : List Click :=
  (positions m scope).filterMap (click? m document)

theorem generate_eq (m : DiagramModel) (scope : Nat) (direction : Direction) (document : Path) :
    generate m scope direction document = .ofLines .componentTree document
      (lines m scope direction) (clicks m scope document) := rfl

/-- Whether a component tree and the class graphs of one scope show the same modules, which have
the given ids, and the edges of the tree are the given ones. -/
structure Agrees (t : ModuleTree) (moduleFile : String) (m : DiagramModel) (scope : Nat)
    (direction : Direction) (document : Path) (ids : List String)
    (edges : List (String × String)) : Prop where
  modules : ids.map some = (t.subtree scope).map m.moduleId?
  nodup : ids.Nodup
  lines_eq : (lines m scope direction ++ (clicks m scope document).map Click.line).map
    DiagramLine.read = .header :: (ids.map .node ++ (edges.map fun e => .edge e.1 e.2) ++
      ((generate m scope direction document).links.map (·.1)).map .click)
  boxes : ∀ graphDirection graphDocument, ((ClassGraph.lines m scope graphDirection
    graphDocument).map DiagramLine.read).filterMap DiagramLine.opening? = ids
  /-- There is one edge to each module but that of the scope, from its parent. -/
  edges_perm : (edges.map fun e => (some e.1, some e.2)).Perm ((t.subtree scope).tail.map fun i =>
    ((t.get i).parent.bind m.moduleId?, m.moduleId? i))
  reaches : ∀ root ∈ m.moduleId? scope, ∀ id ∈ ids,
    Relation.ReflTransGen (fun a b => (a, b) ∈ edges) root id
  /-- The modules with classes at or below them have links, and no other. -/
  links_eq : (generate m scope direction document).links.map (fun e => (some e.1, e.2)) =
    ((t.subtree scope).filter fun i => (t.get i).hasContent).map fun i =>
      (m.moduleId? i, linkTo document ((t.get i).documentPath moduleFile) none)
  /-- Where no name has a line feed, these are the lines that the diagrams have as texts. -/
  texts : t.Inline moduleFile →
    DiagramLine.readAll (generate m scope direction document).diagram =
      (lines m scope direction ++ (clicks m scope document).map Click.line).map
        DiagramLine.read ∧
    ∀ graphDirection graphDocument, (DiagramLine.readAll (ClassGraph.generate m scope
      graphDirection graphDocument).diagram).filterMap DiagramLine.opening? = ids

section Built
variable {roots : List ModuleRoot} {classes : List ClassInfo} {t : ModuleTree}
  (h : Built roots classes t) (moduleFile : String) (ids : IdSupply)
include h

theorem walk_build {fuel : Nat} {stack : List Nat} (hstack : ∀ i ∈ stack, i < t.size) :
    walk (DiagramModel.build t moduleFile ids).1 fuel stack = t.walk fuel stack := by
  induction fuel generalizing stack with
  | zero => rfl
  | succ fuel ih =>
    cases stack with
    | nil => rfl
    | cons i stack =>
      have hi := hstack i List.mem_cons_self
      rw [walk, ModuleTree.walk, DiagramModel.shownChildren_build h.linked moduleFile hi,
        h.documentedChildren_eq hi, ih]
      intro j hj
      rcases List.mem_append.1 hj with hj | hj
      · exact (DiagramModel.lt_of_mem_children h.linked hi hj).2
      · exact hstack j (List.mem_cons_of_mem i hj)

theorem positions_build {scope : Nat} (hscope : scope < t.size) :
    positions (DiagramModel.build t moduleFile ids).1 scope = t.subtree scope := by
  have hstack : ∀ i ∈ [scope], i < t.size := by simpa using hscope
  have hlength : (belowAt t.nodes.toList scope).length ≤
      (DiagramModel.build t moduleFile ids).1.nodes.size := by
    have hfilter : (belowAt t.nodes.toList scope).length ≤ (List.range t.size).length :=
      List.length_filter_le _ _
    rw [List.length_range] at hfilter
    rw [DiagramModel.size_nodes_build h.linked moduleFile ids]
    omega
  rw [positions, DiagramModel.position?_build h.linked moduleFile hscope, Option.toList_some,
    walk_build h moduleFile ids hstack, ModuleTree.subtree_eq h.linked hscope,
    ModuleTree.walk_eq h.linked hstack (by rwa [List.flatMap_singleton]), List.flatMap_singleton]

theorem lt_of_mem_subtree {scope i : Nat} (hscope : scope < t.size) (hi : i ∈ t.subtree scope) :
    i < t.size := by
  rw [ModuleTree.subtree_eq h.linked hscope] at hi
  exact (mem_belowAt.1 hi).1

/-- Behind the header come the nodes of the modules and then the edges to their children. -/
theorem read_lines {scope : Nat} (hscope : scope < t.size) (direction : Direction) :
    (lines (DiagramModel.build t moduleFile ids).1 scope direction).map DiagramLine.read =
      .header :: (((t.subtree scope).map fun i => IdSupply.moduleText (ids.nextModule + i)).map
          .node ++
        ((childPairs t scope).map fun e => (IdSupply.moduleText (ids.nextModule + e.1),
          IdSupply.moduleText (ids.nextModule + e.2))).map fun e => .edge e.1 e.2) := by
  have hindent : "    " = ClassGraph.indent 1 := by decide
  have hnodes : ((t.subtree scope).filterMap
      (nodeLine (DiagramModel.build t moduleFile ids).1)).map DiagramLine.read =
        (t.subtree scope).map fun i => .node (IdSupply.moduleText (ids.nextModule + i)) := by
    have hsome : ∀ i ∈ t.subtree scope,
        (nodeLine (DiagramModel.build t moduleFile ids).1 i).map DiagramLine.read =
          some (.node (IdSupply.moduleText (ids.nextModule + i))) := by
      intro i hi
      have hid := DiagramLine.isId_moduleText (ids.nextModule + i)
      rw [nodeLine, DiagramModel.node?_build_from h.linked moduleFile
        (lt_of_mem_subtree h hscope hi), hindent]
      exact congrArg some (DiagramLine.read_node 1 hid _)
    rw [List.map_filterMap, List.filterMap_congr hsome]
    exact congrFun List.filterMap_eq_map' _
  have hedges : ((t.subtree scope).flatMap
      (edgeLines (DiagramModel.build t moduleFile ids).1)).map DiagramLine.read =
        (childPairs t scope).map fun e => .edge (IdSupply.moduleText (ids.nextModule + e.1))
          (IdSupply.moduleText (ids.nextModule + e.2)) := by
    rw [childPairs, List.map_flatMap, List.map_flatMap]
    refine List.flatMap_congr fun i hi => ?_
    have hi := lt_of_mem_subtree h hscope hi
    rw [edgeLines, DiagramModel.shownChildren_build h.linked moduleFile hi,
      h.documentedChildren_eq hi, List.map_map, List.map_map]
    apply List.map_congr_left
    intro c hc
    have hc := (DiagramModel.lt_of_mem_children h.linked hi hc).2
    rw [Function.comp_apply, Function.comp_apply, DiagramModel.idOf_build h.linked moduleFile hi,
      DiagramModel.idOf_build h.linked moduleFile hc, DiagramLine.read_edge
        (DiagramLine.isId_moduleText _) (DiagramLine.isId_moduleText _)]
  rw [lines, positions_build h moduleFile ids hscope, List.map_cons, DiagramLine.read_header,
    List.map_append, hnodes, hedges, List.map_map, List.map_map]
  rfl

/-- The clicks are those of the modules with classes at or below them. -/
theorem map_clicks {scope : Nat} (hscope : scope < t.size) (document : Path) :
    (clicks (DiagramModel.build t moduleFile ids).1 scope document).map (fun c => (c.id, c.link)) =
      ((t.subtree scope).filter fun i => (t.get i).hasContent).map fun i =>
        (IdSupply.moduleText (ids.nextModule + i),
          linkTo document ((t.get i).documentPath moduleFile) none) := by
  have hclick : ∀ i ∈ t.subtree scope,
      (click? (DiagramModel.build t moduleFile ids).1 document i).map (fun c => (c.id, c.link)) =
        (Option.guard (fun i => (t.get i).hasContent) i).map fun i =>
          (IdSupply.moduleText (ids.nextModule + i),
            linkTo document ((t.get i).documentPath moduleFile) none) := by
    intro i hi
    rw [click?, DiagramModel.node?_build_from h.linked moduleFile (lt_of_mem_subtree h hscope hi)]
    cases hcontent : (t.get i).hasContent <;> simp [moduleNode, hcontent, Option.guard]
  rw [clicks, positions_build h moduleFile ids hscope, List.map_filterMap,
    List.filterMap_congr hclick, ← List.map_filterMap, List.filterMap_eq_filter]

theorem links_generate {scope : Nat} (hscope : scope < t.size) (direction : Direction)
    (document : Path) :
    (generate (DiagramModel.build t moduleFile ids).1 scope direction document).links =
      ((t.subtree scope).filter fun i => (t.get i).hasContent).map fun i =>
        (IdSupply.moduleText (ids.nextModule + i),
          linkTo document ((t.get i).documentPath moduleFile) none) := by
  rw [generate_eq, Artifact.ofLines, map_clicks h moduleFile ids hscope]

theorem read_clicks {scope : Nat} (hscope : scope < t.size) (direction : Direction)
    (document : Path) :
    ((clicks (DiagramModel.build t moduleFile ids).1 scope document).map Click.line).map
        DiagramLine.read =
      ((generate (DiagramModel.build t moduleFile ids).1 scope direction document).links.map
        (·.1)).map .click := by
  rw [generate_eq, Artifact.map_fst_links_ofLines]
  apply DiagramLine.read_clicks
  intro click hclick
  have hmem := List.mem_map_of_mem (f := fun c : Click => (c.id, c.link)) hclick
  rw [map_clicks h moduleFile ids hscope] at hmem
  obtain ⟨i, -, he⟩ := List.mem_map.1 hmem
  obtain ⟨hid, -⟩ := Prod.mk.inj he
  exact hid ▸ DiagramLine.isId_moduleText (ids.nextModule + i)

/-- Where no name has a line feed, the text of a component tree reads as its lines do. -/
theorem readAll_generate (ht : t.Inline moduleFile) {scope : Nat} (hscope : scope < t.size)
    (direction : Direction) (document : Path) :
    DiagramLine.readAll
        (generate (DiagramModel.build t moduleFile ids).1 scope direction document).diagram =
      (lines (DiagramModel.build t moduleFile ids).1 scope direction ++
        (clicks (DiagramModel.build t moduleFile ids).1 scope document).map Click.line).map
          DiagramLine.read := by
  have hpositions := positions_build h moduleFile ids hscope
  rw [generate_eq]
  apply DiagramLine.readAll_ofLines _ _ (List.cons_ne_nil _ _)
  · intro line hline
    rcases List.mem_cons.1 hline with rfl | hline
    · cases direction <;> decide
    · rw [hpositions] at hline
      rcases List.mem_append.1 hline with hline | hline
      · obtain ⟨i, hi, hnode⟩ := List.mem_filterMap.1 hline
        exact ((written_nodeLine h.linked (lt_of_mem_subtree h hscope hi) hnode).plain ht).1
      · obtain ⟨i, hi, hedge⟩ := List.mem_flatMap.1 hline
        exact ((written_edgeLines h.linked (lt_of_mem_subtree h hscope hi) line hedge).plain ht).1
  · intro click hclick
    rw [clicks, hpositions] at hclick
    obtain ⟨i, hi, hclick⟩ := List.mem_filterMap.1 hclick
    exact (written_click h.linked (lt_of_mem_subtree h hscope hi) hclick).inline ht

theorem agrees_generate {scope : Nat} (hscope : scope < t.size) (direction : Direction)
    (document : Path) : ∃ nodes edges, Agrees t moduleFile (DiagramModel.build t moduleFile ids).1
      scope direction document nodes edges := by
  let nodes := (t.subtree scope).map fun i => IdSupply.moduleText (ids.nextModule + i)
  let edges := (childPairs t scope).map fun e =>
    (IdSupply.moduleText (ids.nextModule + e.1), IdSupply.moduleText (ids.nextModule + e.2))
  have hid : ∀ i ∈ t.subtree scope, (DiagramModel.build t moduleFile ids).1.moduleId? i =
      some (IdSupply.moduleText (ids.nextModule + i)) := fun i hi =>
    DiagramModel.moduleId?_build h.linked moduleFile ids (lt_of_mem_subtree h hscope hi)
  have hnodes : nodes.map some =
      (t.subtree scope).map (DiagramModel.build t moduleFile ids).1.moduleId? := by
    rw [List.map_map]
    exact List.map_congr_left fun i hi => (hid i hi).symm
  have hboxes : ∀ graphDirection graphDocument,
      ((ClassGraph.lines (DiagramModel.build t moduleFile ids).1 scope graphDirection
        graphDocument).map DiagramLine.read).filterMap DiagramLine.opening? = nodes := by
    intro graphDirection graphDocument
    have hopening := ClassGraph.filterMap_opening?_lines h moduleFile ids graphDocument hscope
      graphDirection
    exact List.map_injective_iff.2 (Option.some_injective _) (hopening.trans hnodes.symm)
  refine ⟨nodes, edges, ?_⟩
  constructor
  case modules => exact hnodes
  case nodup =>
    have hnodup := DiagramModel.nodup_moduleIds h.linked moduleFile ids scope
    rw [← ModuleTree.subtree_eq h.linked hscope, ← hnodes] at hnodup
    exact hnodup.of_map some
  case lines_eq =>
    rw [List.map_append, read_lines h moduleFile ids hscope,
      read_clicks h moduleFile ids hscope direction, List.cons_append]
  case boxes => exact hboxes
  case edges_perm =>
    have hperm := (childPairs_perm h.linked hscope).map fun e =>
      (e.1.bind (DiagramModel.build t moduleFile ids).1.moduleId?,
        (DiagramModel.build t moduleFile ids).1.moduleId? e.2)
    rw [List.map_map, List.map_map] at hperm
    have hedges : edges.map (fun e => (some e.1, some e.2)) = (childPairs t scope).map fun e =>
        ((DiagramModel.build t moduleFile ids).1.moduleId? e.1,
          (DiagramModel.build t moduleFile ids).1.moduleId? e.2) := by
      rw [List.map_map]
      apply List.map_congr_left
      intro e he
      obtain ⟨hp, hc⟩ := mem_subtree_of_mem_childPairs h.linked hscope he
      rw [hid e.1 hp, hid e.2 hc]
      rfl
    rw [hedges]
    exact hperm
  case reaches =>
    intro root hroot node hnode
    obtain ⟨i, hi, rfl⟩ := List.mem_map.1 hnode
    rw [DiagramModel.moduleId?_build h.linked moduleFile ids hscope] at hroot
    obtain rfl := Option.some.inj hroot
    have hstep : ∀ p c, (p, c) ∈ childPairs t scope →
        (IdSupply.moduleText (ids.nextModule + p), IdSupply.moduleText (ids.nextModule + c)) ∈
          edges := fun p c hpc => List.mem_map.2 ⟨(p, c), hpc, rfl⟩
    have hreached := reflTransGen_childPairs h.linked hscope hi
    clear hi hnode
    induction hreached with
    | refl => exact .refl
    | @tail p c _ hpc ih => exact ih.tail (hstep p c hpc)
  case links_eq =>
    rw [links_generate h moduleFile ids hscope, List.map_map]
    apply List.map_congr_left
    intro i hi
    rw [Function.comp_apply, hid i (List.mem_of_mem_filter hi)]
  case texts =>
    intro ht
    refine ⟨readAll_generate h moduleFile ids ht hscope direction document, ?_⟩
    intro graphDirection graphDocument
    rw [ClassGraph.readAll_generate h moduleFile ids graphDocument ht hscope,
      List.filterMap_append, hboxes]
    simp [DiagramLine.opening?]

end Built

/-- The diagrams of a built tree agree on the modules, whatever ids are left. -/
theorem aggregate_agrees {rootPaths : List Path} {files : List SourceFile}
    {classes : List ClassInfo} {scope : Nat}
    (hscope : scope < (aggregate rootPaths files classes).tree.size) (moduleFile : String)
    (ids : IdSupply) (direction : Direction) (document : Path) :
    ∃ nodes edges, Agrees (aggregate rootPaths files classes).tree moduleFile
      (DiagramModel.build (aggregate rootPaths files classes).tree moduleFile ids).1 scope direction
      document nodes edges :=
  agrees_generate (aggregate_built rootPaths files classes) moduleFile ids hscope direction document

/-- The scope is a directory below the root, with a line feed in the name of one below it. -/
theorem agrees_nestedModules :
    let t := (aggregate [⟨"/r"⟩] [] [⟨"A", ⟨"/r/a.py"⟩, 1, 0, 1, 1⟩,
      ⟨"B", ⟨"/r/lib/net/b.py"⟩, 2, 1, 1, 2⟩, ⟨"C", ⟨"/r/lib/x\ny/c.py"⟩, 3, 0, 1, 3⟩]).tree
    1 < t.size ∧ ∃ nodes edges, Agrees t "README.md"
      (DiagramModel.build t "README.md" ⟨2, []⟩).1 1 .right ⟨"docs/lib.md"⟩ nodes edges := by
  intro t
  have hscope : 1 < t.size := by decide +kernel
  exact ⟨hscope, aggregate_agrees hscope _ _ _ _⟩

end ComponentTree
end CodeAtlas
