import CodeAtlas.Diagram.Generate
import CodeAtlas.Proofs.Diagram.Containment
import CodeAtlas.Proofs.Module.PathNames
import CodeAtlas.Proofs.Text.OneLine

/-!
# The lines of diagrams

Where no name has a line feed, a diagram has one line for each that its generator writes, and none
of them begins as an HTML element or as a fence does.
-/
namespace CodeAtlas

/-- Whether no name that the documents of a tree show has a line feed. -/
structure ModuleTree.Inline (t : ModuleTree) (moduleFile : String) : Prop where
  moduleFile : OneLine moduleFile
  path : ∀ {i : Nat}, i < t.size → OneLine (t.get i).path
  className : ∀ {i : Nat}, i < t.size → ∀ c ∈ (t.get i).classes, OneLine c.name

theorem inline_of_built {roots : List ModuleRoot} {classes : List ClassInfo} {t : ModuleTree}
    {moduleFile : String} (h : Built roots classes t) (hfile : OneLine moduleFile)
    (hpath : ∀ i < t.size, OneLine (t.get i).path) (hname : ∀ c ∈ classes, OneLine c.name) :
    t.Inline moduleFile where
  moduleFile := hfile
  path := fun hi => hpath _ hi
  className := fun hi c hc => hname c ((h.mem_get_classes hi).1 hc).1

/-- Whether a text is a line that begins neither as an HTML element nor as a fence does. -/
def PlainLine (s : String) : Prop :=
  OneLine s ∧ s.toList.head? ≠ some '<' ∧ s.toList.head? ≠ some '\x60'

instance (s : String) : Decidable (PlainLine s) := inferInstanceAs (Decidable (_ ∧ _))

theorem PlainLine.append {a b : String} (ha : PlainLine a) (hne : a ≠ "") (hb : OneLine b) :
    PlainLine (a ++ b) := by
  obtain ⟨c, cs, hc⟩ := List.exists_cons_of_ne_nil (String.toList_eq_nil_iff.not.2 hne)
  refine ⟨oneLine_append.2 ⟨ha.1, hb⟩, ?_⟩
  have hhead := ha.2
  rw [String.toList_append, hc, List.cons_append, List.head?_cons]
  rwa [hc, List.head?_cons] at hhead

theorem countLines_eq_zero_of_head? {line s : String} (h : OneLine s)
    (hne : s.toList.head? ≠ line.toList.head?) : Text.countLines line s = 0 := by
  rw [Text.countLines_of_oneLine h, if_neg]
  rintro rfl
  exact hne rfl

theorem PlainLine.countLines_eq_zero {line s : String} (h : PlainLine s)
    (hline : line.toList.head? = some '<') : Text.countLines line s = 0 :=
  countLines_eq_zero_of_head? h.1 (hline ▸ h.2.1)

/-! ### Texts in diagrams -/

theorem oneLine_counted (n : Nat) {singular plural : String} (hs : OneLine singular)
    (hp : OneLine plural) : OneLine (counted n singular plural) := by
  rw [counted, oneLine_append, oneLine_append]
  exact ⟨⟨oneLine_toString n, by decide⟩, oneLine_ite hs hp⟩

theorem oneLine_label (s : Stats) : OneLine s.label := by
  rw [Stats.label, oneLine_append, oneLine_append]
  exact ⟨⟨oneLine_counted _ (by decide) (by decide), by decide⟩,
    oneLine_counted _ (by decide) (by decide)⟩

theorem oneLine_escapeLabel {s : String} (h : OneLine s) : OneLine (escapeLabel s) := by
  rw [OneLine, escapeLabel, String.toList_ofList, List.mem_flatMap]
  rintro ⟨c, hc, hmem⟩
  unfold escapeChar at hmem
  split at hmem
  · exact absurd hmem (by decide)
  · split at hmem
    · exact absurd hmem (by decide)
    · split at hmem
      · exact absurd hmem (by decide)
      · rw [List.mem_singleton] at hmem
        exact h (hmem ▸ hc)

theorem oneLine_quoted {s : String} (h : OneLine s) : OneLine (quoted s) := by
  rw [quoted, oneLine_append, oneLine_append]
  exact ⟨⟨by decide, h⟩, by decide⟩

theorem oneLine_moduleText (n : Nat) : OneLine (IdSupply.moduleText n) := by
  rw [IdSupply.moduleText, oneLine_append]
  exact ⟨by decide, oneLine_toString n⟩

theorem plain_classText (module file n : Nat) : PlainLine (IdSupply.classText module file n) := by
  have hstart : PlainLine "c" := by decide
  simp only [IdSupply.classText, String.append_assoc]
  apply hstart.append (by decide)
  simp only [oneLine_append, oneLine_toString]
  decide

theorem not_mem_relativeLink {c : Char} (hc : c ∉ ['.', '/']) (dir : Path) {target : Path}
    (h : c ∉ target.text.toList) : c ∉ (relativeLink dir target).toList := by
  simp only [List.mem_cons, List.not_mem_nil, or_false, not_or] at hc
  apply not_mem_intercalate (by simp [hc])
  intro s hs
  rcases List.mem_append.1 hs with hs | hs
  · rw [List.eq_of_mem_replicate hs]
    simp [hc]
  · exact fun hmem => h (Path.subset_of_mem_names (List.mem_of_mem_drop hs) hmem)

theorem not_mem_linkTo {c : Char} (hc : c ∉ ['.', '/', '#']) (document : Path) {target : Path}
    (h : c ∉ target.text.toList) {anchor : Option String} (ha : ∀ a ∈ anchor, c ∉ a.toList) :
    c ∉ (linkTo document target anchor).toList := by
  simp only [List.mem_cons, List.not_mem_nil, or_false, not_or] at hc
  have hlink := not_mem_relativeLink (by simp [hc]) (document.parent?.getD ⟨""⟩) h
  cases anchor with
  | none => exact hlink
  | some a => simp [linkTo, hlink, hc, ha a rfl]

theorem not_mem_join {c : Char} (hc : c ≠ '/') {p q : Path} (hp : c ∉ p.text.toList)
    (hq : c ∉ q.text.toList) : c ∉ (p.join q).text.toList := by
  unfold Path.join
  split
  · exact hq
  · split <;> simp [hc, hp, hq]

theorem not_mem_documentPath {c : Char} (hc : c ≠ '/') {n : ModuleNode} {moduleFile : String}
    (hpath : c ∉ n.path.toList) (hfile : c ∉ moduleFile.toList) :
    c ∉ (n.documentPath moduleFile).text.toList := by
  rw [ModuleNode.documentPath, ModuleNode.relativeDir]
  refine not_mem_join hc (not_mem_intercalate (by simp [hc]) fun s hs => ?_) hfile
  obtain ⟨f, hf, rfl⟩ := List.mem_map.1 hs
  rw [String.toList_ofList]
  exact fun hmem => hpath (Text.subset_of_mem_fields (List.mem_filter.1 hf).1 hmem)

def Click.Inline (c : Click) : Prop := OneLine c.id ∧ OneLine c.link ∧ OneLine c.tip

theorem Click.inline_mk {id link tip : String} (hid : OneLine id) (hlink : OneLine link)
    (htip : OneLine tip) : Click.Inline ⟨id, link, tip⟩ :=
  ⟨hid, hlink, htip⟩

theorem Click.Inline.plainLine {c : Click} (h : c.Inline) : PlainLine c.line := by
  obtain ⟨hid, hlink, htip⟩ := h
  have hstart : PlainLine "    click " := by decide
  change PlainLine ("    click " ++ c.id ++ " \"" ++ c.link ++ "\" \"" ++ c.tip ++ "\"")
  simp only [String.append_assoc]
  apply hstart.append (by decide)
  simp only [oneLine_append, hid, hlink, htip]
  decide

/-! ### How lines and clicks are written -/

def ModuleNode.diagramLabel (n : ModuleNode) : String :=
  escapeLabel n.displayName ++ "<br/>" ++ n.stats.label

def ClassInfo.diagramLabel (c : ClassInfo) : String :=
  escapeLabel c.name ++ "<br/>" ++ counted c.loc "line" "lines"

/-- The lines that a diagram of the tree's modules may have before its clicks. -/
inductive WrittenLine (t : ModuleTree) (ids : IdSupply) : String → Prop
  | header (direction : Direction) : WrittenLine t ids (diagramHeader direction)
  | opening (depth : Nat) {i : Nat} (hi : i < t.size) : WrittenLine t ids
      (ClassGraph.indent depth ++ "subgraph " ++ IdSupply.moduleText (ids.nextModule + i) ++
        quoted (t.get i).diagramLabel)
  | closing (depth : Nat) : WrittenLine t ids (ClassGraph.indent depth ++ "end")
  | moduleNode {i : Nat} (hi : i < t.size) : WrittenLine t ids
      ("    " ++ IdSupply.moduleText (ids.nextModule + i) ++ quoted (t.get i).diagramLabel)
  | classNode (depth : Nat) {i : Nat} {c : ClassInfo} (hi : i < t.size)
      (hc : c ∈ (t.get i).classes) (file n : Nat) : WrittenLine t ids
      (ClassGraph.indent depth ++ IdSupply.classText (ids.nextModule + i) file n ++
        quoted c.diagramLabel)
  | edge (i j : Nat) : WrittenLine t ids
      ("    " ++ IdSupply.moduleText (ids.nextModule + i) ++ " --> " ++
        IdSupply.moduleText (ids.nextModule + j))

inductive WrittenClick (t : ModuleTree) (moduleFile : String) (ids : IdSupply) (document : Path) :
    Click → Prop
  | ofModule {i : Nat} (hi : i < t.size) : WrittenClick t moduleFile ids document
      ⟨IdSupply.moduleText (ids.nextModule + i),
        linkTo document ((t.get i).documentPath moduleFile) none,
        escapeLabel (t.get i).displayName ++ ": " ++ (t.get i).stats.label⟩
  | ofClass {i : Nat} {c : ClassInfo} (hi : i < t.size) (hc : c ∈ (t.get i).classes) (file n : Nat) :
    WrittenClick t moduleFile ids document
      ⟨IdSupply.classText (ids.nextModule + i) file n,
        linkTo document ((t.get i).documentPath moduleFile) (some c.anchor),
        escapeLabel c.name ++ ": " ++ counted c.loc "line" "lines" ++ ", " ++
          counted c.methodCount "method" "methods"⟩

/-- Whether a diagram is one of the tree's, of whatever kind, scope and place. -/
def Artifact.Depicts (a : Artifact) (t : ModuleTree) (moduleFile : String) : Prop :=
  ∃ (ids : IdSupply) (kind : DiagramKind) (scope : Nat) (direction : Direction) (document : Path),
    a = kind.generate (DiagramModel.build t moduleFile ids).1 scope direction document

section Tree
variable {top : ModuleKey} {t : ModuleTree} {moduleFile : String} {ids : IdSupply}
  (h : Linked top t.nodes.toList)

def ClassGraph.Part.IsWritten (t : ModuleTree) (moduleFile : String) (ids : IdSupply)
    (document : Path) (p : ClassGraph.Part) : Prop :=
  (∀ line ∈ p.lines, WrittenLine t ids line) ∧
    ∀ click ∈ p.clicks, WrittenClick t moduleFile ids document click

theorem written_classPart (document : Path) {i : Nat} (hi : i < t.size) (depth : Nat)
    {node : DiagramNode} (hnode : node ∈ ownNodesFrom ids t moduleFile i) :
    (ClassGraph.classPart document depth node).IsWritten t moduleFile ids document := by
  obtain ⟨c, hc, file, n, rfl⟩ := exists_of_mem_ownNodesFrom hnode
  refine ⟨fun line hline => ?_, fun click hclick => ?_⟩
  · obtain rfl := List.mem_singleton.1 hline
    exact .classNode (depth + 1) hi hc file n
  · obtain rfl := List.mem_singleton.1 hclick
    exact .ofClass hi hc file n

include h

theorem written_box (document : Path) {fuel depth i : Nat} (hi : i < t.size) :
    (ClassGraph.box (DiagramModel.build t moduleFile ids).1 document fuel depth i).IsWritten
      t moduleFile ids document := by
  induction fuel generalizing depth i with
  | zero => exact ⟨by simp [ClassGraph.box], by simp [ClassGraph.box]⟩
  | succ fuel ih =>
    rw [DiagramModel.box_build h moduleFile document fuel depth hi]
    have hinner : ∀ part ∈ (ownNodesFrom ids t moduleFile i).map
          (ClassGraph.classPart document depth) ++
        (t.documentedChildren i).map (ClassGraph.box (DiagramModel.build t moduleFile ids).1
          document fuel (depth + 1)), part.IsWritten t moduleFile ids document := by
      intro part hpart
      rcases List.mem_append.1 hpart with hpart | hpart
      · obtain ⟨node, hnode, rfl⟩ := List.mem_map.1 hpart
        exact written_classPart document hi depth hnode
      · obtain ⟨c, hc, rfl⟩ := List.mem_map.1 hpart
        exact ih (DiagramModel.lt_of_mem_documentedChildren h hi hc)
    refine ⟨fun line hline => ?_, fun click hclick => ?_⟩
    · simp only [ClassGraph.Part.join, List.mem_append, List.mem_singleton] at hline
      obtain (rfl | hline) | rfl := hline
      · exact .opening depth hi
      · obtain ⟨part, hpart, hline⟩ := List.mem_flatMap.1 hline
        exact (hinner part hpart).1 line hline
      · exact .closing depth
    · obtain ⟨part, hpart, hclick⟩ := List.mem_flatMap.1 hclick
      exact (hinner part hpart).2 click hclick

theorem written_nodeLine {i : Nat} (hi : i < t.size) {line : String}
    (hline : line ∈ ComponentTree.nodeLine (DiagramModel.build t moduleFile ids).1 i) :
    WrittenLine t ids line := by
  rw [ComponentTree.nodeLine, DiagramModel.node?_build_from h moduleFile hi] at hline
  obtain rfl := Option.some.inj hline
  rw [String.append_assoc]
  exact .moduleNode hi

theorem written_edgeLines {i : Nat} (hi : i < t.size) :
    ∀ line ∈ ComponentTree.edgeLines (DiagramModel.build t moduleFile ids).1 i,
      WrittenLine t ids line := by
  intro line hline
  obtain ⟨c, hc, rfl⟩ := List.mem_map.1 hline
  rw [DiagramModel.shownChildren_build h moduleFile hi] at hc
  rw [DiagramModel.idOf_build h moduleFile hi,
    DiagramModel.idOf_build h moduleFile (DiagramModel.lt_of_mem_documentedChildren h hi hc)]
  exact .edge i c

theorem written_click {document : Path} {i : Nat} (hi : i < t.size) {click : Click}
    (hclick : click ∈ ComponentTree.click? (DiagramModel.build t moduleFile ids).1 document i) :
    WrittenClick t moduleFile ids document click := by
  rw [ComponentTree.click?, DiagramModel.node?_build_from h moduleFile hi] at hclick
  cases hcontent : (t.get i).hasContent with
  | false => simp [moduleNode, hcontent] at hclick
  | true =>
    simp only [moduleNode, hcontent, if_true, Option.mem_def, Option.some.injEq] at hclick
    exact hclick ▸ .ofModule hi

/-- A diagram is made of such lines and of such clicks, whatever its kind and its scope. -/
theorem exists_written_generate (moduleFile : String) (ids : IdSupply) (kind : DiagramKind)
    (scope : Nat) (direction : Direction) (document : Path) :
    ∃ lines clicks, kind.generate (DiagramModel.build t moduleFile ids).1 scope direction document =
        .ofLines kind document lines clicks ∧ lines ≠ [] ∧
      (∀ line ∈ lines, WrittenLine t ids line) ∧
      ∀ click ∈ clicks, WrittenClick t moduleFile ids document click := by
  have hposition : (DiagramModel.build t moduleFile ids).1.position? scope =
      if scope < t.size then some scope else none :=
    DiagramModel.position?_build_from h moduleFile scope
  cases kind with
  | classGraph =>
    rw [DiagramKind.generate, ClassGraph.generate, hposition]
    refine ⟨_, _, rfl, List.cons_ne_nil _ _, List.forall_mem_cons.2 ⟨.header direction, ?_⟩, ?_⟩ <;>
      split_ifs with hscope
    · exact (written_box h document hscope).1
    · simp
    · exact (written_box h document hscope).2
    · simp
  | componentTree =>
    refine ⟨_, _, rfl, List.cons_ne_nil _ _, ?_⟩
    have hwalk : ∀ i ∈ ComponentTree.walk (DiagramModel.build t moduleFile ids).1
        (DiagramModel.build t moduleFile ids).1.nodes.size
        ((DiagramModel.build t moduleFile ids).1.position? scope).toList, i < t.size := by
      intro i hi
      refine DiagramModel.lt_of_mem_walk h moduleFile ?_ hi
      rw [hposition]
      split_ifs with hscope <;> simp [hscope]
    refine ⟨List.forall_mem_cons.2 ⟨.header direction, fun line hline => ?_⟩, fun click hclick => ?_⟩
    · rcases List.mem_append.1 hline with hline | hline
      · obtain ⟨i, hi, hline⟩ := List.mem_filterMap.1 hline
        exact written_nodeLine h (hwalk i hi) hline
      · obtain ⟨i, hi, hline⟩ := List.mem_flatMap.1 hline
        exact written_edgeLines h (hwalk i hi) line hline
    · obtain ⟨i, hi, hclick⟩ := List.mem_filterMap.1 hclick
      exact written_click h (hwalk i hi) hclick

end Tree

/-! ### Lines without line feeds -/

theorem plain_indent_append (depth : Nat) {s : String} (h : PlainLine s) :
    PlainLine (ClassGraph.indent depth ++ s) := by
  cases depth with
  | zero => simpa [ClassGraph.indent] using h
  | succ depth =>
    have hindent : PlainLine (ClassGraph.indent (depth + 1)) := by
      constructor
      · rw [OneLine, ClassGraph.indent, String.toList_ofList]
        intro hmem
        exact absurd (List.eq_of_mem_replicate hmem) (by decide)
      · simp [ClassGraph.indent, Nat.mul_add, List.replicate_succ]
    refine hindent.append ?_ h.1
    simp [ClassGraph.indent, Nat.mul_add, List.replicate_succ]

section Inline
variable {t : ModuleTree} {moduleFile : String} {ids : IdSupply} (ht : t.Inline moduleFile)
include ht

theorem oneLine_displayName {i : Nat} (hi : i < t.size) : OneLine (t.get i).displayName :=
  oneLine_ite (by decide) (ht.path hi)

theorem oneLine_of_mem_pathNames {i : Nat} (hi : i < t.size) {s : String}
    (hs : s ∈ (t.get i).pathNames) : OneLine s := by
  obtain ⟨f, hf, rfl⟩ := List.mem_map.1 hs
  have hsubset := Text.subset_of_mem_fields (List.mem_filter.1 hf).1
  rw [OneLine, String.toList_ofList]
  exact fun hmem => ht.path hi (hsubset hmem)

theorem oneLine_documentPath {i : Nat} (hi : i < t.size) :
    OneLine ((t.get i).documentPath moduleFile).text :=
  not_mem_documentPath (by decide) (ht.path hi) ht.moduleFile

theorem oneLine_moduleLabel {i : Nat} (hi : i < t.size) :
    OneLine (quoted (t.get i).diagramLabel) := by
  apply oneLine_quoted
  rw [ModuleNode.diagramLabel, oneLine_append, oneLine_append]
  exact ⟨⟨oneLine_escapeLabel (oneLine_displayName ht hi), by decide⟩, oneLine_label _⟩

theorem oneLine_classLabel {i : Nat} (hi : i < t.size) {c : ClassInfo}
    (hc : c ∈ (t.get i).classes) : OneLine (quoted c.diagramLabel) := by
  apply oneLine_quoted
  rw [ClassInfo.diagramLabel, oneLine_append, oneLine_append]
  exact ⟨⟨oneLine_escapeLabel (ht.className hi c hc), by decide⟩,
    oneLine_counted c.loc (by decide) (by decide)⟩

theorem WrittenLine.plain {line : String} (h : WrittenLine t ids line) : PlainLine line := by
  have hblank : PlainLine "    " := by decide
  cases h with
  | header direction => cases direction <;> decide
  | opening depth hi =>
    have hstart : PlainLine "subgraph " := by decide
    simp only [String.append_assoc]
    apply plain_indent_append
    apply hstart.append (by decide)
    exact oneLine_append.2 ⟨oneLine_moduleText _, oneLine_moduleLabel ht hi⟩
  | closing depth => exact plain_indent_append depth (by decide)
  | moduleNode hi =>
    rw [String.append_assoc]
    apply hblank.append (by decide)
    exact oneLine_append.2 ⟨oneLine_moduleText _, oneLine_moduleLabel ht hi⟩
  | classNode depth hi hc file n =>
    rw [String.append_assoc]
    apply plain_indent_append
    exact (plain_classText _ file n).append (by simp [IdSupply.classText])
      (oneLine_classLabel ht hi hc)
  | edge i j =>
    simp only [String.append_assoc]
    apply hblank.append (by decide)
    simp only [oneLine_append, oneLine_moduleText]
    decide

theorem WrittenClick.inline {document : Path} {click : Click}
    (h : WrittenClick t moduleFile ids document click) : click.Inline := by
  cases h with
  | @ofModule i hi =>
    have hlink := @not_mem_linkTo _ (by decide) document _ (oneLine_documentPath ht hi) none
      (by simp)
    have htip : OneLine (escapeLabel (t.get i).displayName ++ ": " ++ (t.get i).stats.label) := by
      rw [oneLine_append, oneLine_append]
      exact ⟨⟨oneLine_escapeLabel (oneLine_displayName ht hi), by decide⟩, oneLine_label _⟩
    exact Click.inline_mk (oneLine_moduleText _) hlink htip
  | @ofClass i c hi hc file n =>
    have hname := ht.className hi c hc
    have hanchor : ∀ a ∈ some c.anchor, OneLine a := by
      rintro a ⟨⟩
      exact oneLine_lower.2 hname
    have hlink := not_mem_linkTo (by decide) document (oneLine_documentPath ht hi) hanchor
    have htip : OneLine (escapeLabel c.name ++ ": " ++ counted c.loc "line" "lines" ++ ", " ++
        counted c.methodCount "method" "methods") := by
      simp only [oneLine_append, oneLine_escapeLabel hname,
        oneLine_counted _ (show OneLine "line" by decide) (show OneLine "lines" by decide),
        oneLine_counted _ (show OneLine "method" by decide) (show OneLine "methods" by decide),
        true_and, and_true]
      decide
    exact Click.inline_mk (plain_classText _ file n).1 hlink htip

end Inline

/-! ### The lines of a diagram's text -/

def Artifact.lines (a : Artifact) : List String := Text.rawLines a.diagram

theorem Artifact.lines_ofLines (kind : DiagramKind) (path : Path) {lines : List String}
    {clicks : List Click} (hne : lines ≠ []) (hlines : ∀ line ∈ lines, OneLine line)
    (hclicks : ∀ click ∈ clicks, click.Inline) :
    (ofLines kind path lines clicks).lines = lines ++ clicks.map Click.line := by
  refine Text.rawLines_intercalate (by simp [hne]) (List.forall_mem_append.2 ⟨hlines, ?_⟩)
  exact List.forall_mem_map.2 fun click hclick => (hclicks click hclick).plainLine.1

section Depicts
variable {top : ModuleKey} {t : ModuleTree} {moduleFile : String}
  (h : Linked top t.nodes.toList) (ht : t.Inline moduleFile) {a : Artifact}
  (ha : a.Depicts t moduleFile)
include h ht ha

theorem exists_lines_eq : ∃ ids document lines, ∃ clicks : List Click,
    a.lines = lines ++ clicks.map Click.line ∧ a.links = clicks.map (fun c => (c.id, c.link)) ∧
      (∀ line ∈ lines, WrittenLine t ids line) ∧
      ∀ click ∈ clicks, WrittenClick t moduleFile ids document click := by
  obtain ⟨ids, kind, scope, direction, document, rfl⟩ := ha
  obtain ⟨lines, clicks, he, hne, hlines, hclicks⟩ :=
    exists_written_generate h moduleFile ids kind scope direction document
  have hcut := Artifact.lines_ofLines kind document hne
    (fun line hline => ((hlines line hline).plain ht).1)
    (fun click hclick => (hclicks click hclick).inline ht)
  rw [he]
  exact ⟨ids, document, lines, clicks, hcut, rfl, hlines, hclicks⟩

theorem plainLine_of_mem_lines : ∀ line ∈ a.lines, PlainLine line := by
  obtain ⟨ids, document, lines, clicks, hlines, -, hwritten, hclicks⟩ := exists_lines_eq h ht ha
  rw [hlines]
  refine List.forall_mem_append.2 ⟨fun line hline => (hwritten line hline).plain ht, ?_⟩
  exact List.forall_mem_map.2 fun click hclick => ((hclicks click hclick).inline ht).plainLine

/-- No line of a diagram begins as an HTML element does. -/
theorem countLines_diagram {line : String} (hline : line.toList.head? = some '<') :
    Text.countLines line a.diagram = 0 := by
  rw [Text.countLines_eq_count, List.count_eq_zero]
  exact fun hmem => (plainLine_of_mem_lines h ht ha line hmem).2.1 hline

end Depicts
end CodeAtlas
