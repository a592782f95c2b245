import CodeAtlas.Proofs.Diagram.Containment
import CodeAtlas.Proofs.Document.Pages
import CodeAtlas.Proofs.Module.Totals

namespace CodeAtlas

theorem Built.mem_documentedIds {roots : List ModuleRoot} {classes : List ClassInfo}
    {t : ModuleTree} (h : Built roots classes t) (hne : classes ≠ []) {i : Nat} (hi : i < t.size) :
    i ∈ t.documentedIds :=
  ModuleTree.mem_documentedIds.2 ⟨hi, h.hasContent hne hi⟩

namespace Layout

def model (l : Layout) (t : ModuleTree) : DiagramModel := (DiagramModel.build t l.moduleFile .empty).1

def LeadsTo (l : Layout) (t : ModuleTree) (d : DocumentTarget) (link : String) (module : Nat) :
    Prop :=
  ∃ page ∈ l.pages t, page.scope = module ∧ d.directory.resolve ⟨link⟩ = page.path.plain

/-- The entries of all lists of submodules, each with the document that it stands in. -/
def submodules (l : Layout) (t : ModuleTree) (artifacts : DocumentTarget → List Artifact) :
    List (DocumentTarget × ModuleEntry) :=
  (l.pages t).flatMap fun d => (l.modulePage t d (artifacts d)).children.map (d, ·)

structure Connected (l : Layout) (t : ModuleTree) : Prop where
  /-- A class's link leads, but for its anchor, to the page of the class's module. -/
  classGraph : ∀ d ∈ l.targets t, ∀ direction,
    ∀ e ∈ (ClassGraph.generate (l.model t) d.scope direction d.path).links,
      ∃ module, ∃ c ∈ (t.get module).classes, ∃ doc,
        ⟨e.1, .ofClass c.name c.loc c.methodCount c.anchor doc⟩ ∈ (l.model t).classNodes module ∧
          ∃ file, e.2 = file ++ "#" ++ c.anchor ∧ l.LeadsTo t d file module
  componentTree : ∀ d ∈ l.targets t, ∀ direction,
    ∀ e ∈ (ComponentTree.generate (l.model t) d.scope direction d.path).links,
      ∃ module node, (l.model t).moduleNode? module = some node ∧ node.id = e.1 ∧
        l.LeadsTo t d e.2 module
  /-- The overview lists the pages in their order. -/
  modules : ∀ d ∈ l.targets t, d.isOverview = true → ∀ artifacts info,
    List.Forall₂ (fun e page => e.path = (t.get page.scope).displayName ∧
        d.directory.resolve ⟨e.link⟩ = page.path.plain)
      (l.overviewPage t d artifacts info).modules (l.pages t)
  /-- The lists of submodules have an entry for each page but the root's, on the parent's page. -/
  submodules : ∀ artifacts,
    ((l.submodules t artifacts).map fun (d, e) =>
        (some d.scope, e.path, d.directory.resolve ⟨e.link⟩)).Perm
      (((l.pages t).filter fun page => page.scope ≠ t.root.id).map fun page =>
        ((t.get page.scope).parent, (t.get page.scope).displayName, page.path.plain))
  /-- So no module is listed twice. -/
  submodules_nodup : ∀ artifacts, ((l.submodules t artifacts).map fun e => e.2.path).Nodup

section Tree
variable {top : ModuleKey} {t : ModuleTree} (h : Linked top t.nodes.toList) (l : Layout)
include h

theorem moduleNode?_eq {i : Nat} (hi : i < t.size) :
    (l.model t).moduleNode? i = some (moduleNode l.moduleFile (t.get i) i) := by
  rw [DiagramModel.moduleNode?, model, DiagramModel.position?_build h l.moduleFile hi,
    Option.bind_some, DiagramModel.node?_build h l.moduleFile hi]

theorem classNodes_eq {i : Nat} (hi : i < t.size) :
    (l.model t).classNodes i = ownNodes t l.moduleFile i := by
  rw [DiagramModel.classNodes, model, DiagramModel.position?_build h l.moduleFile hi]
  exact DiagramModel.contained_ownClass h l.moduleFile hi

theorem mem_clicks_box {document : Path} {fuel depth i : Nat} {click : Click} (hi : i < t.size)
    (hc : click ∈ (ClassGraph.box (l.model t) document fuel depth i).clicks) :
    ∃ j < t.size, ∃ node ∈ ownNodes t l.moduleFile j, ∃ depth,
      click ∈ (ClassGraph.classPart document depth node).clicks := by
  induction fuel generalizing depth i with
  | zero => simp [ClassGraph.box] at hc
  | succ fuel ih =>
    rw [model, DiagramModel.box_build h l.moduleFile document fuel depth hi] at hc
    simp only [ownNodesFrom_empty, ClassGraph.Part.join, List.mem_flatMap, List.mem_append, List.mem_map] at hc
    obtain ⟨part, ⟨node, hn, rfl⟩ | ⟨c, hchild, rfl⟩, hpart⟩ := hc
    · exact ⟨i, hi, node, hn, depth, hpart⟩
    · exact ih (DiagramModel.lt_of_mem_documentedChildren h hi hchild) hpart

end Tree

section Built
variable {roots : List ModuleRoot} {classes : List ClassInfo} {t : ModuleTree} {l : Layout}
  (h : Built roots classes t) (hs : Spelled t) (hl : l.Ordinary)
include h hs hl

theorem leadsTo_page {d : DocumentTarget} (hd : d ∈ l.targets t) {i : Nat} (hi : i < t.size)
    (hcontent : (t.get i).hasContent = true) :
    l.LeadsTo t d (relativeLink d.directory ((t.get i).documentPath l.moduleFile)) i :=
  ⟨l.page t i, page_mem_pages h.linked l hi hcontent, rfl,
    resolve_page h.linked hs hl hd hi hcontent⟩

theorem leadsTo_of_mem_classGraph {d : DocumentTarget} (hd : d ∈ l.targets t)
    {direction : Direction} {e : String × String}
    (he : e ∈ (ClassGraph.generate (l.model t) d.scope direction d.path).links) :
    ∃ module, ∃ c ∈ (t.get module).classes, ∃ doc,
      ⟨e.1, .ofClass c.name c.loc c.methodCount c.anchor doc⟩ ∈ (l.model t).classNodes module ∧
        ∃ file, e.2 = file ++ "#" ++ c.anchor ∧ l.LeadsTo t d file module := by
  have hscope := scope_lt h.linked hd
  have hposition : (l.model t).position? d.scope = some d.scope :=
    DiagramModel.position?_build h.linked l.moduleFile hscope
  rw [ClassGraph.generate, hposition] at he
  obtain ⟨click, hclick, rfl⟩ := List.mem_map.1 he
  obtain ⟨i, hi, node, hnode, depth, hpart⟩ := mem_clicks_box h.linked l hscope hclick
  rw [← classNodes_eq h.linked l hi] at hnode
  obtain ⟨c, hc, file, n, rfl⟩ := exists_of_mem_ownNodes (classNodes_eq h.linked l hi ▸ hnode)
  have hne : classes ≠ [] := List.ne_nil_of_mem ((h.mem_get_classes hi).1 hc).1
  obtain rfl := List.mem_singleton.1 hpart
  exact ⟨i, c, hc, (t.get i).documentPath l.moduleFile, hnode, _, rfl,
    leadsTo_page h hs hl hd hi (h.hasContent hne hi)⟩

theorem leadsTo_of_mem_componentTree {d : DocumentTarget} (hd : d ∈ l.targets t)
    {direction : Direction} {e : String × String}
    (he : e ∈ (ComponentTree.generate (l.model t) d.scope direction d.path).links) :
    ∃ module node, (l.model t).moduleNode? module = some node ∧ node.id = e.1 ∧
      l.LeadsTo t d e.2 module := by
  have hscope := scope_lt h.linked hd
  have hposition : (l.model t).position? d.scope = some d.scope :=
    DiagramModel.position?_build h.linked l.moduleFile hscope
  obtain ⟨click, hclick, rfl⟩ := List.mem_map.1 he
  obtain ⟨i, hwalk, hi⟩ := List.mem_filterMap.1 hclick
  rw [hposition] at hwalk
  have hlt : i < t.size := DiagramModel.lt_of_mem_walk h.linked l.moduleFile (by simpa using hscope) hwalk
  have hnode : (l.model t).node? i = some (moduleNode l.moduleFile (t.get i) i) :=
    DiagramModel.node?_build h.linked l.moduleFile hlt
  refine ⟨i, _, moduleNode?_eq h.linked l hlt, ?_⟩
  rw [ComponentTree.click?, hnode] at hi
  cases hcontent : (t.get i).hasContent with
  | false => simp [moduleNode, hcontent] at hi
  | true =>
    simp only [moduleNode, hcontent, if_true, Option.some.injEq] at hi
    have hlink : click.link =
        relativeLink d.directory ((t.get i).documentPath l.moduleFile) := by
      simp only [← hi, linkTo, DocumentTarget.directory]
    have hid : click.id = IdSupply.moduleText i := by rw [← hi]
    refine ⟨hid.symm, ?_⟩
    dsimp only
    rw [hlink]
    exact leadsTo_page h hs hl hd hlt hcontent

theorem forall₂_modules {d : DocumentTarget} (hd : d ∈ l.targets t) (artifacts : List Artifact)
    (info : OverviewInfo) :
    List.Forall₂ (fun e page => e.path = (t.get page.scope).displayName ∧
        d.directory.resolve ⟨e.link⟩ = page.path.plain)
      (l.overviewPage t d artifacts info).modules (l.pages t) := by
  have hentries : (l.overviewPage t d artifacts info).modules =
      t.documentedIds.map fun i => l.entry d.directory (t.get i) := by
    rw [overviewPage, documented_eq h.linked, List.map_map]
    rfl
  rw [hentries, pages_eq h.linked, List.forall₂_map_left_iff, List.forall₂_map_right_iff,
    List.forall₂_same]
  intro i hi
  obtain ⟨hlt, hcontent⟩ := ModuleTree.mem_documentedIds.1 hi
  refine ⟨rfl, ?_⟩
  simp only [entry]
  rw [resolve_page h.linked hs hl hd hlt hcontent]

omit hs hl in
theorem exists_documented_parent {i : Nat} (hi : i ∈ t.documentedIds) (hne : i ≠ 0) :
    ∃ p < i, p ∈ t.documentedIds ∧ (t.get i).parent = some p := by
  have hlt := (ModuleTree.mem_documentedIds.1 hi).1
  obtain ⟨p, hp, hparent, -⟩ := h.linked.exists_parent hlt hne
  obtain ⟨j, hj, hclass⟩ := h.exists_class hlt hne
  obtain ⟨c, hc⟩ := List.exists_mem_of_ne_nil _ hclass
  rw [ModuleTree.subtree_eq h.linked hlt] at hj
  have hsome := List.ne_nil_of_mem ((h.mem_get_classes (mem_belowAt.1 hj).1).1 hc).1
  exact ⟨p, hp, h.mem_documentedIds hsome (hp.trans hlt), hparent⟩

omit hs hl in
/-- Every module that has a page, but for the root, hangs from one that has a page. -/
theorem flatMap_documentedChildren_perm :
    (t.documentedIds.flatMap t.documentedChildren).Perm (t.documentedIds.filter (· ≠ 0)) := by
  have hparents : ∀ i ∈ t.documentedIds.filter (· ≠ 0),
      (t.get i).parent ∈ t.documentedIds.map some := by
    intro i hi
    obtain ⟨hi, hne⟩ := List.mem_filter.1 hi
    obtain ⟨p, -, hp, hparent⟩ := exists_documented_parent h hi (by simpa using hne)
    exact hparent ▸ List.mem_map_of_mem hp
  have hnodup : (t.documentedIds.map some).Nodup :=
    (List.nodup_range.filter _).map (Option.some_injective Nat)
  refine .trans (.of_eq ?_) (flatMap_filter_perm (fun i => (t.get i).parent) hnodup hparents)
  rw [List.flatMap_map]
  apply List.flatMap_congr
  intro p hp
  have hplt := (ModuleTree.mem_documentedIds.1 hp).1
  rw [ModuleTree.documentedChildren, ModuleTree.get_children h.linked hplt, childrenAt,
    ModuleTree.documentedIds, List.filter_filter, List.filter_filter, List.filter_filter,
    t.length_toList]
  apply List.filter_congr
  intro i hi
  have hlt := List.mem_range.1 hi
  rw [← ModuleTree.get_parent hlt]
  by_cases hparent : (t.get i).parent = some p
  · have hne : i ≠ 0 := by
      intro hzero
      rw [(h.linked.parent_eq_none hlt).2 hzero] at hparent
      simp at hparent
    simp [hparent, hne]
  · simp [hparent]

theorem map_submodules (artifacts : DocumentTarget → List Artifact) :
    ((l.submodules t artifacts).map fun (d, e) =>
        (some d.scope, e.path, d.directory.resolve ⟨e.link⟩)) =
      (t.documentedIds.flatMap t.documentedChildren).map fun i =>
        ((t.get i).parent, (t.get i).displayName, (l.page t i).path.plain) := by
  rw [Layout.submodules, pages_eq h.linked, List.flatMap_map, List.map_flatMap, List.map_flatMap]
  apply List.flatMap_congr
  intro i hi
  obtain ⟨hlt, hcontent⟩ := ModuleTree.mem_documentedIds.1 hi
  have hpage : l.page t i ∈ l.targets t :=
    (List.mem_filter.1 (page_mem_pages h.linked l hlt hcontent)).1
  have hchildren : (l.modulePage t (l.page t i) (artifacts (l.page t i))).children =
      (t.documentedChildren i).map fun c => l.entry (l.page t i).directory (t.get c) := by
    have hid : (t.get (l.page t i).scope).id = i := h.linked.get_id hlt
    rw [modulePage, hid, ModuleTree.children, List.filter_map, List.map_map]
    rfl
  rw [hchildren, List.map_map, List.map_map]
  apply List.map_congr_left
  intro c hc
  obtain ⟨hchild, hcontent⟩ := List.mem_filter.1 hc
  rw [ModuleTree.get_children h.linked hlt] at hchild
  obtain ⟨hclt, hparent⟩ := mem_childrenAt.1 hchild
  have hlink := resolve_page h.linked hs hl hpage hclt hcontent
  rw [← ModuleTree.get_parent hclt] at hparent
  simp only [Function.comp_apply, entry, hlink, hparent]
  rfl

omit hl in
theorem nodup_displayName :
    ((t.documentedIds.filter (· ≠ 0)).map fun i => (t.get i).displayName).Nodup := by
  apply List.Nodup.map_on _ ((List.nodup_range.filter _).filter _)
  have hpath : ∀ i ∈ t.documentedIds.filter (· ≠ 0),
      i < t.size ∧ (t.get i).displayName = (t.get i).path := by
    intro i hi
    obtain ⟨hi, hne⟩ := List.mem_filter.1 hi
    have hlt := (ModuleTree.mem_documentedIds.1 hi).1
    obtain ⟨p, -, hparent, -⟩ := h.linked.exists_parent hlt (by simpa using hne)
    have hnames := hs.hasNames hlt
    have hfull : (t.get i).path ≠ "" := by
      rw [hnames.path_eq]
      refine Path.text_ofNames_ne_empty ?_ hnames.isModulePath.isName
      rw [hs.pathNames_child hlt hparent]
      simp
    refine ⟨hlt, ?_⟩
    rw [ModuleNode.displayName, if_neg (by simpa using hfull)]
  intro i hi j hj he
  obtain ⟨hi, hpi⟩ := hpath i hi
  obtain ⟨hj, hpj⟩ := hpath j hj
  rw [hpi, hpj] at he
  exact hs.path_inj h hi hj he

theorem nodup_path_submodules (artifacts : DocumentTarget → List Artifact) :
    ((l.submodules t artifacts).map fun e => e.2.path).Nodup := by
  have hpaths : ((l.submodules t artifacts).map fun e => e.2.path) =
      (t.documentedIds.flatMap t.documentedChildren).map fun i => (t.get i).displayName := by
    have hmap := congrArg (List.map fun e => e.2.1) (map_submodules h hs hl artifacts)
    rw [List.map_map, List.map_map] at hmap
    exact hmap
  rw [hpaths, ((flatMap_documentedChildren_perm h).map _).nodup_iff]
  exact nodup_displayName h hs

theorem connected : l.Connected t where
  classGraph := fun _ hd _ _ he => leadsTo_of_mem_classGraph h hs hl hd he
  componentTree := fun _ hd _ _ he => leadsTo_of_mem_componentTree h hs hl hd he
  modules := fun _ hd _ => forall₂_modules h hs hl hd
  submodules := by
    intro artifacts
    have hroot : t.root.id = 0 := h.linked.get_id h.linked.length_pos
    have hpages : ((l.pages t).filter fun page => page.scope ≠ t.root.id) =
        (t.documentedIds.filter (· ≠ 0)).map (l.page t) := by
      rw [pages_eq h.linked, List.filter_map, hroot]
      rfl
    rw [map_submodules h hs hl, hpages, List.map_map]
    exact (flatMap_documentedChildren_perm h).map _
  submodules_nodup := nodup_path_submodules h hs hl

end Built

/-- The documents of a built tree link to one another and to nothing else. -/
theorem aggregate_connected {l : Layout} (hl : l.Ordinary) (rootPaths : List Path)
    (files : List SourceFile) (classes : List ClassInfo) :
    l.Connected (aggregate rootPaths files classes).tree :=
  connected (aggregate_built rootPaths files classes) (aggregate_spelled rootPaths files classes) hl

/-- One unnamed top over two roots, with a directory in between that has no classes of its own. -/
theorem connected_twoRoots :
    (Layout.mk "overview.md" "module.md").Ordinary ∧
      (Layout.mk "overview.md" "module.md").Connected (aggregate [⟨"/src/lib"⟩, ⟨"/app"⟩] []
        [⟨"A", ⟨"/src/lib/net/http/a.py"⟩, 3, 1, 1, 4⟩, ⟨"B", ⟨"/app/b.py"⟩, 2, 0, 1, 2⟩]).tree := by
  have hl : (Layout.mk "overview.md" "module.md").Ordinary := ⟨by decide, by decide⟩
  exact ⟨hl, aggregate_connected hl _ _ _⟩

end Layout
end CodeAtlas
