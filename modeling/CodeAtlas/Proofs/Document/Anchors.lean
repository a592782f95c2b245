import CodeAtlas.Proofs.Diagram.IdStability
import CodeAtlas.Proofs.Document.Links
import CodeAtlas.Proofs.Document.PageLines

/-!
# Anchors of classes

The link of a class leads to an anchor on the page of its module. The anchor is the class's name in
small letters, so classes of one module whose names agree up to letter case share it.
-/
namespace CodeAtlas

namespace DiagramNode

/-- The document and the anchor that the link of a class leads to. -/
def target? (n : DiagramNode) : Option (List Component × String) :=
  match n.info with
  | .ofClass _ _ _ anchor doc => some (doc.components, anchor)
  | .ofModule .. => none

def className? (n : DiagramNode) : Option String :=
  match n.info with
  | .ofClass name .. => some name
  | .ofModule .. => none

end DiagramNode

theorem Component.ofName_inj {s s' : String} (h : Component.ofName s = Component.ofName s') :
    s = s' := by
  grind [Component.ofName]

theorem slash_not_mem_fileName (p : Path) : '/' ∉ (p.fileName?.getD "").toList := by
  cases hname : p.fileName? with
  | none => decide
  | some s =>
    obtain ⟨c, hc, hs⟩ := Option.bind_eq_some_iff.1 hname
    obtain rfl := Component.normal?_eq_some.1 hs
    exact (Path.isName_of_mem_components (List.mem_of_getLast? hc)).1.2

theorem oneLine_title (kind : DiagramKind) : OneLine kind.title := by
  cases kind <;> decide

namespace Layout

/-- Which classes share the target of their links, and how often a page has an anchor. -/
structure Anchored (l : Layout) (t : ModuleTree) : Prop where
  classNodes : (l.model t).nodes.toList.filter (·.isClass) =
    (List.range t.size).flatMap (l.model t).classNodes
  target?_eq_iff : ∀ {i j : Nat}, i < t.size → j < t.size →
    ∀ a ∈ (l.model t).classNodes i, ∀ b ∈ (l.model t).classNodes j,
      a.target? = b.target? ↔ (l.page t i).path.components = (l.page t j).path.components ∧
        a.className?.map Text.lower = b.className?.map Text.lower
  path_inj : (Path.mk l.moduleFile).IsTail → ∀ {i j : Nat}, i < t.size → j < t.size →
    (l.page t i).path.components = (l.page t j).path.components → i = j
  /-- Each page has the line of an anchor once for each class listed there with this anchor. -/
  countLines_anchorText : t.Inline l.moduleFile → ∀ d ∈ l.pages t,
    ∀ (kinds : List DiagramKind) (direction : Direction) (info : OverviewInfo) (anchor : String),
      Text.countLines (Page.anchorText anchor) (l.render t d
        (kinds.map fun k => k.generate (l.model t) d.scope direction d.path) info).content =
          (t.get d.scope).classes.countP fun c => Text.lower c.name = anchor

section Tree
variable {top : ModuleKey} {t : ModuleTree} (h : Linked top t.nodes.toList) (l : Layout)
include h

theorem flatMap_classNodes : (l.model t).nodes.toList.filter (·.isClass) =
    (List.range t.size).flatMap (l.model t).classNodes := by
  rw [model, filter_isClass_nodes h]
  exact List.flatMap_congr fun i hi => (classNodes_eq h l (List.mem_range.1 hi)).symm

theorem target?_eq_iff {i j : Nat} (hi : i < t.size) (hj : j < t.size) {a b : DiagramNode}
    (ha : a ∈ (l.model t).classNodes i) (hb : b ∈ (l.model t).classNodes j) :
    a.target? = b.target? ↔ (l.page t i).path.components = (l.page t j).path.components ∧
      a.className?.map Text.lower = b.className?.map Text.lower := by
  rw [classNodes_eq h l hi] at ha
  rw [classNodes_eq h l hj] at hb
  obtain ⟨c, -, file, n, rfl⟩ := exists_of_mem_ownNodes ha
  obtain ⟨d, -, file', n', rfl⟩ := exists_of_mem_ownNodes hb
  simp [DiagramNode.target?, DiagramNode.className?, page, ClassInfo.anchor]

end Tree

section Built
variable {roots : List ModuleRoot} {classes : List ClassInfo} {t : ModuleTree} {l : Layout}
  (h : Built roots classes t) (hs : Spelled t)
include h hs

theorem path_inj (hfile : (Path.mk l.moduleFile).IsTail) {i j : Nat} (hi : i < t.size)
    (hj : j < t.size) (he : (l.page t i).path.components = (l.page t j).path.components) :
    i = j := by
  have hnames : (t.get i).pathNames.map Component.ofName =
      (t.get j).pathNames.map Component.ofName := by
    rw [page, page, (hs.hasNames hi).isModulePath.components_documentPath hfile,
      (hs.hasNames hj).isModulePath.components_documentPath hfile] at he
    exact List.append_cancel_right he
  apply hs.pathNames_inj h hi hj
  exact (List.map_inj_right fun _ _ => Component.ofName_inj).1 hnames

section Inline
variable (ht : t.Inline l.moduleFile)
include ht

theorem oneLine_name {i : Nat} (hi : i < t.size) : OneLine (t.get i).name := by
  rw [← oneLine_lower, h.lower_name hi, ← (hs.hasNames hi).key_eq, ModuleKey.ofNames,
    List.getLast?_map]
  cases hlast : (t.get i).pathNames.getLast? with
  | none => decide
  | some s => exact oneLine_lower.2 (oneLine_of_mem_pathNames ht hi (List.mem_of_getLast? hlast))

omit h hs in
theorem inline_entry (dir : Path) {i : Nat} (hi : i < t.size) :
    OneLine (l.entry dir (t.get i)).path ∧ OneLine (l.entry dir (t.get i)).link := by
  simp only [entry]
  exact ⟨oneLine_displayName ht hi,
    not_mem_relativeLink (by decide) dir (oneLine_documentPath ht hi)⟩

omit hs in
theorem inline_diagram {a : Artifact} (ha : a.Depicts t l.moduleFile) :
    OneLine a.entry.title ∧
      ∀ line : String, line.toList.head? = some '<' → Text.countLines line a.entry.body = 0 := by
  simp only [Artifact.entry]
  exact ⟨oneLine_title _, fun line hline => countLines_diagram h.linked ht ha hline⟩

omit h hs in
theorem inline_class {i : Nat} (hi : i < t.size) {c : ClassInfo} (hc : c ∈ (t.get i).classes) :
    OneLine c.entry.name ∧ OneLine c.entry.anchor ∧ '/' ∉ c.entry.file.toList := by
  have hname : OneLine c.name := ht.className hi c hc
  simp only [ClassInfo.entry]
  exact ⟨hname, oneLine_lower.2 hname, slash_not_mem_fileName c.file⟩

theorem inline_modulePage {i : Nat} (hi : i < t.size) {artifacts : List Artifact}
    (ha : ∀ a ∈ artifacts, a.Depicts t l.moduleFile) :
    (l.modulePage t (l.page t i) artifacts).Inline := by
  constructor <;> simp only [modulePage, page]
  case title => exact oneLine_ite (oneLine_displayName ht hi) (oneLine_name h hs ht hi)
  case path => exact oneLine_displayName ht hi
  case kind => cases (t.get i).kind <;> decide +kernel
  case kind_ne => cases (t.get i).kind <;> decide +kernel
  case diagrams =>
    intro d hd
    obtain ⟨a, hmem, rfl⟩ := List.mem_map.1 hd
    exact inline_diagram h ht (ha a hmem)
  case children =>
    intro m hm
    obtain ⟨n, hn, rfl⟩ := List.mem_map.1 hm
    obtain ⟨c, hc, rfl⟩ := List.mem_map.1 (List.mem_filter.1 hn).1
    rw [h.linked.get_id hi, ModuleTree.get_children h.linked hi] at hc
    exact inline_entry ht _ (mem_childrenAt.1 hc).1
  case classes =>
    intro e he
    obtain ⟨c, hc, rfl⟩ := List.mem_map.1 he
    exact inline_class ht hi hc

theorem countLines_render {d : DocumentTarget} (hd : d ∈ l.pages t) (kinds : List DiagramKind)
    (direction : Direction) (info : OverviewInfo) (anchor : String) :
    Text.countLines (Page.anchorText anchor) (l.render t d
      (kinds.map fun k => k.generate (l.model t) d.scope direction d.path) info).content =
        (t.get d.scope).classes.countP fun c => Text.lower c.name = anchor := by
  rw [pages_eq h.linked] at hd
  obtain ⟨i, hi, rfl⟩ := List.mem_map.1 hd
  have hlt : i < t.size := (ModuleTree.mem_documentedIds.1 hi).1
  have hartifacts : ∀ a ∈ kinds.map fun k =>
      k.generate (l.model t) (l.page t i).scope direction (l.page t i).path,
      a.Depicts t l.moduleFile := by
    intro a ha
    obtain ⟨kind, -, rfl⟩ := List.mem_map.1 ha
    exact ⟨.empty, kind, _, direction, _, rfl⟩
  have hpage := inline_modulePage h hs ht hlt hartifacts
  refine (hpage.countLines_anchorText anchor).trans ?_
  exact List.countP_map

end Inline

theorem anchored : l.Anchored t where
  classNodes := flatMap_classNodes h.linked l
  target?_eq_iff := fun hi hj _ ha _ hb => target?_eq_iff h.linked l hi hj ha hb
  path_inj := fun hfile _ _ => path_inj h hs hfile
  countLines_anchorText := fun ht _ => countLines_render h hs ht

end Built

/-- In every built tree the links of two classes lead to the same place only if the classes have
the same name, up to letter case, and the same page. -/
theorem aggregate_anchored (l : Layout) (rootPaths : List Path) (files : List SourceFile)
    (classes : List ClassInfo) : l.Anchored (aggregate rootPaths files classes).tree :=
  anchored (aggregate_built rootPaths files classes) (aggregate_spelled rootPaths files classes)

def nestedNames : List ClassInfo := [classA, ⟨"a", ⟨"/r/lib/b.py"⟩, 1, 0, 1, 1⟩]

theorem anchored_nestedNames :
    (Path.mk "README.md").IsTail ∧ (aggregate [⟨"/r"⟩] [] nestedNames).tree.Inline "README.md" ∧
      (Layout.mk "index.md" "README.md").Anchored (aggregate [⟨"/r"⟩] [] nestedNames).tree := by
  have hfile : IsOrdinary "README.md" := by decide
  have hinline : (aggregate [⟨"/r"⟩] [] nestedNames).tree.Inline "README.md" :=
    inline_of_built (aggregate_built _ _ _) (by decide) (by decide +kernel) (by decide)
  exact ⟨hfile.isTail, hinline, aggregate_anchored _ _ _ _⟩

theorem map_target?_ownNodes (t : ModuleTree) (moduleFile : String) (i : Nat) :
    (ownNodes t moduleFile i).map DiagramNode.target? = (t.get i).classes.map fun c =>
      some (((t.get i).documentPath moduleFile).components, c.anchor) := by
  have hclasses : (countedFrom (fun _ => 0) (numberFiles (t.get i).classes)).map (·.1) =
      (t.get i).classes := by
    rw [map_fst_countedFrom, map_snd_numberFiles]
  conv_rhs => rw [← hclasses]
  rw [ownNodes, List.map_map, List.map_map]
  rfl

/-- Where the path of a module reads like the line of an anchor, the page has that line twice. -/
theorem two_le_countLines_page (l : Layout) {t : ModuleTree} {i : Nat} {c : ClassInfo}
    (hc : c ∈ (t.get i).classes) (hanchor : OneLine c.anchor)
    (hpath : Text.countLines (Page.anchorText c.anchor)
      (Text.capitalize (t.get i).kind.name ++ " " ++ Page.code (t.get i).displayName) = 1)
    (artifacts : List Artifact) (info : OverviewInfo) :
    2 ≤ Text.countLines (Page.anchorText c.anchor)
      (l.render t (l.page t i) artifacts info).content := by
  have hcontent : (l.render t (l.page t i) artifacts info).content =
      (l.modulePage t (l.page t i) artifacts).render := rfl
  have hanchor' : c.entry.anchor = c.anchor := by simp only [ClassInfo.entry]
  have hentry : c.entry ∈ (l.modulePage t (l.page t i) artifacts).classes :=
    List.mem_map_of_mem hc
  have htwo := ModulePage.two_le_countLines (l.modulePage t (l.page t i) artifacts) (c := c.entry)
  rw [hanchor'] at htwo
  rw [hcontent]
  exact htwo hanchor hpath hentry

def sharedAnchor : List ClassInfo := [classA, ⟨"a", ⟨"/r/b.py"⟩, 1, 0, 1, 1⟩]

def rootWithFeed : Path := ⟨"/r/\n<a id=\"b\"><"⟩

def classBelowFeeds : ClassInfo := ⟨"b", ⟨"/r/\n<a id=\"b\"></a>\n/b.py"⟩, 1, 0, 1, 1⟩

/-- Two classes of a module may share a target, and a path may read like the line of an anchor. -/
theorem not_forall_anchors_unique :
    (¬ ∀ (l : Layout) (rootPaths : List Path) (files : List SourceFile) (classes : List ClassInfo),
      (((l.model (aggregate rootPaths files classes).tree).nodes.toList.filter (·.isClass)).map
        DiagramNode.target?).Nodup) ∧
    ¬ ∀ (l : Layout) (rootPaths : List Path) (files : List SourceFile) (c : ClassInfo),
      ∀ d ∈ l.pages (aggregate rootPaths files [c]).tree,
        c ∈ ((aggregate rootPaths files [c]).tree.get d.scope).classes →
        ∀ (kinds : List DiagramKind) (direction : Direction) (info : OverviewInfo),
          Text.countLines (Page.anchorText c.anchor)
            (l.render (aggregate rootPaths files [c]).tree d (kinds.map fun k => k.generate
              (l.model (aggregate rootPaths files [c]).tree) d.scope direction d.path) info).content
            = 1 := by
  constructor
  · intro h
    have hnodup := h ⟨"index.md", "README.md"⟩ [⟨"/r"⟩] [] sharedAnchor
    have hlinked := (aggregate_built [⟨"/r"⟩] [] sharedAnchor).linked
    have hkeys : moduleKeys (ModuleRoot.ofPaths [⟨"/r"⟩]) sharedAnchor = [["r"]] := by
      decide +kernel
    obtain ⟨hsize, hclasses⟩ := get_classes_of_moduleKeys_eq [] hkeys (by decide +kernel)
      (by decide +kernel)
    have hsame : Text.lower "A" = Text.lower "a" := by decide +kernel
    rw [flatMap_classNodes hlinked, hsize, List.range_one, List.flatMap_singleton,
      classNodes_eq hlinked _ (by omega), map_target?_ownNodes, hclasses] at hnodup
    simp [sharedAnchor, classA, ClassInfo.anchor, hsame] at hnodup
  · intro h
    have hb := aggregate_built [rootWithFeed] [] [classBelowFeeds]
    have hsize : 1 < (aggregate [rootWithFeed] [] [classBelowFeeds]).tree.size := by
      decide +kernel
    have hkey : ((aggregate [rootWithFeed] [] [classBelowFeeds]).tree.get 1).key =
        classKey (ModuleRoot.ofPaths [rootWithFeed]) classBelowFeeds := by decide +kernel
    have hmem : classBelowFeeds ∈
        ((aggregate [rootWithFeed] [] [classBelowFeeds]).tree.get 1).classes := by
      rw [hb.mem_get_classes hsize]
      exact ⟨List.mem_singleton_self _, hkey.symm⟩
    have hpage := page_mem_pages hb.linked ⟨"index.md", "README.md"⟩ hsize
      (hb.hasContent (by simp) hsize)
    have hcount := h _ _ _ _ _ hpage hmem [] .down ⟨"", [], [], 0, 0, []⟩
    rw [List.map_nil] at hcount
    have htwo := two_le_countLines_page ⟨"index.md", "README.md"⟩ hmem (by decide +kernel)
      (by decide +kernel) [] ⟨"", [], [], 0, 0, []⟩
    exact absurd (htwo.trans_eq hcount) (by decide)

end Layout
end CodeAtlas
