import CodeAtlas.Proofs.Diagram.IdStability
import CodeAtlas.Proofs.Diagram.Reading

/-!
# Quotes in diagrams

Labels and tips are written between quotes and have none of their own, whatever the names in them.
A link is written between quotes as it is, so in the line of a click there are as many quotes more
as the link has.
-/
namespace CodeAtlas

def quotes (s : String) : Nat := s.toList.count '\x22'

/-- How many quotes delimit the strings of a line. -/
def DiagramLine.delimiters : DiagramLine → Nat
  | header | closing | edge .. => 0
  | opening _ | node _ => 2
  | click _ => 4

/-! ### Quotes in texts -/

@[simp]
theorem quotes_append (a b : String) : quotes (a ++ b) = quotes a + quotes b := by
  simp [quotes]

theorem quotes_eq_zero {s : String} : quotes s = 0 ↔ '\x22' ∉ s.toList := by
  rw [quotes, List.count_eq_zero]

@[simp]
theorem quotes_quoted (s : String) : quotes (quoted s) = quotes s + 2 := by
  have hopen : quotes "[\"" = 1 := by decide
  have hclose : quotes "\"]" = 1 := by decide
  simp only [quoted, quotes_append, hopen, hclose]
  omega

@[simp]
theorem quotes_escapeLabel (s : String) : quotes (escapeLabel s) = 0 := by
  rw [quotes_eq_zero, escapeLabel, String.toList_ofList, List.mem_flatMap]
  rintro ⟨c, -, hmem⟩
  unfold escapeChar at hmem
  split_ifs at hmem with hquote
  · simp at hmem
  · simp at hmem
  · simp at hmem
  · exact hquote (List.mem_singleton.1 hmem).symm

@[simp]
theorem quotes_repr (n : Nat) : quotes n.repr = 0 :=
  quotes_eq_zero.2 (not_mem_toString (by decide) n)

@[simp]
theorem quotes_counted (n : Nat) (singular plural : String) :
    quotes (counted n singular plural) = quotes (if n = 1 then singular else plural) := by
  have hblank : quotes " " = 0 := by decide
  simp [counted, hblank]

theorem quotes_ite (p : Prop) [Decidable p] (a b : String) :
    quotes (if p then a else b) = if p then quotes a else quotes b := by
  split <;> rfl

@[simp]
theorem quotes_label (s : Stats) : quotes s.label = 0 := by
  have hwords : quotes "class" = 0 ∧ quotes "classes" = 0 ∧ quotes " | " = 0 ∧
      quotes "line" = 0 ∧ quotes "lines" = 0 := by decide
  simp [Stats.label, quotes_ite, hwords]

@[simp]
theorem quotes_indent (depth : Nat) : quotes (ClassGraph.indent depth) = 0 := by
  rw [quotes_eq_zero]
  intro hmem
  exact absurd (DiagramLine.eq_blank_of_mem_indent hmem) (by decide)

@[simp]
theorem quotes_moduleText (n : Nat) : quotes (IdSupply.moduleText n) = 0 := by
  have hstart : quotes "m" = 0 := by decide
  simp [IdSupply.moduleText, hstart]

@[simp]
theorem quotes_classText (module file n : Nat) :
    quotes (IdSupply.classText module file n) = 0 := by
  have hmarks : quotes "c" = 0 ∧ quotes "_" = 0 := by decide
  simp [IdSupply.classText, hmarks]

theorem quotes_click (c : Click) :
    quotes c.line = quotes c.id + quotes c.link + quotes c.tip + 4 := by
  have hmarks : quotes "    click " = 0 ∧ quotes " \"" = 1 ∧ quotes "\" \"" = 2 ∧
      quotes "\"" = 1 := by decide
  change quotes ("    click " ++ c.id ++ " \"" ++ c.link ++ "\" \"" ++ c.tip ++ "\"") = _
  simp only [quotes_append, hmarks]
  omega

/-! ### Quotes in lines -/

@[simp]
theorem quotes_moduleLabel (n : ModuleNode) : quotes n.diagramLabel = 0 := by
  have hbreak : quotes "<br/>" = 0 := by decide
  simp [ModuleNode.diagramLabel, hbreak]

@[simp]
theorem quotes_classLabel (c : ClassInfo) : quotes c.diagramLabel = 0 := by
  have hwords : quotes "<br/>" = 0 ∧ quotes "line" = 0 ∧ quotes "lines" = 0 := by decide
  simp [ClassInfo.diagramLabel, quotes_ite, hwords]

section Written
variable {t : ModuleTree} {moduleFile : String} {ids : IdSupply} {document : Path}

/-- A line that is no click has the quotes that delimit its label, if it has one. -/
theorem WrittenLine.quotes_eq {line : String} (h : WrittenLine t ids line) :
    quotes line = (DiagramLine.read line).delimiters ∧
      ∀ id, DiagramLine.read line ≠ .click id := by
  have hwords : quotes "subgraph " = 0 ∧ quotes "end" = 0 ∧ quotes "    " = 0 ∧
      quotes " --> " = 0 := by decide
  have hindent : "    " = ClassGraph.indent 1 := by decide
  cases h with
  | header direction =>
    rw [DiagramLine.read_header]
    cases direction <;> simp [DiagramLine.delimiters] <;> decide
  | @opening depth i hi =>
    rw [DiagramLine.read_opening depth (DiagramLine.isId_moduleText _)]
    simp [DiagramLine.delimiters, hwords]
  | closing depth =>
    rw [DiagramLine.read_closing]
    simp [DiagramLine.delimiters, hwords]
  | @moduleNode i hi =>
    rw [hindent, DiagramLine.read_node 1 (DiagramLine.isId_moduleText _)]
    simp [DiagramLine.delimiters]
  | @classNode depth i c hi hc file n =>
    rw [DiagramLine.read_node depth (DiagramLine.isId_classText _ file n)]
    simp [DiagramLine.delimiters]
  | edge i j =>
    rw [DiagramLine.read_edge (DiagramLine.isId_moduleText _) (DiagramLine.isId_moduleText _)]
    simp [DiagramLine.delimiters, hwords]

theorem WrittenClick.quotes_line {c : Click} (h : WrittenClick t moduleFile ids document c) :
    quotes c.line = (DiagramLine.click c.id).delimiters + quotes c.link := by
  have hwords : quotes ": " = 0 ∧ quotes ", " = 0 ∧ quotes "line" = 0 ∧ quotes "lines" = 0 ∧
      quotes "method" = 0 ∧ quotes "methods" = 0 := by decide
  rw [quotes_click, DiagramLine.delimiters]
  cases h <;> simp [quotes_ite, hwords] <;> omega

end Written

/-! ### Quotes in diagrams -/

/-- Whether the lines of a diagram have the quotes that delimit their strings, and besides them
those of the link in the line of a click. -/
structure Artifact.QuotesBut (a : Artifact) : Prop where
  other : ∀ line ∈ a.lines, (∀ id, DiagramLine.read line ≠ .click id) →
    quotes line = (DiagramLine.read line).delimiters
  click : ∀ line ∈ a.lines, ∀ id, DiagramLine.read line = .click id →
    ∃ link, (id, link) ∈ a.links ∧ quotes line = (DiagramLine.click id).delimiters + quotes link
  link : ∀ p ∈ a.links, ∃ line ∈ a.lines, DiagramLine.read line = .click p.1 ∧
    quotes line = (DiagramLine.click p.1).delimiters + quotes p.2

/-- The quotes of a diagram are those that delimit its strings just when no link has one. -/
theorem Artifact.QuotesBut.forall_iff {a : Artifact} (h : a.QuotesBut) :
    (∀ line ∈ a.lines, quotes line = (DiagramLine.read line).delimiters) ↔
      ∀ p ∈ a.links, quotes p.2 = 0 := by
  constructor
  · intro hall p hp
    obtain ⟨line, hline, hread, hquotes⟩ := h.link p hp
    have hdelimiters := hall line hline
    rw [hread] at hdelimiters
    omega
  · intro hlinks line hline
    by_cases hclick : ∃ id, DiagramLine.read line = .click id
    · obtain ⟨id, hid⟩ := hclick
      obtain ⟨link, hlink, hquotes⟩ := h.click line hline id hid
      rw [hid, hquotes, hlinks _ hlink, Nat.add_zero]
    · exact h.other line hline (not_exists.1 hclick)

/-- Whether no name that the links of a tree's diagrams are made of has a quote. -/
structure ModuleTree.Unquoted (t : ModuleTree) (moduleFile : String) : Prop where
  moduleFile : quotes moduleFile = 0
  path : ∀ {i : Nat}, i < t.size → quotes (t.get i).path = 0
  className : ∀ {i : Nat}, i < t.size → ∀ c ∈ (t.get i).classes, quotes c.name = 0

theorem WrittenClick.quotes_link {t : ModuleTree} {moduleFile : String} {ids : IdSupply}
    {document : Path} (ht : t.Unquoted moduleFile) {c : Click}
    (h : WrittenClick t moduleFile ids document c) : quotes c.link = 0 := by
  have hdocument : ∀ {i : Nat}, i < t.size →
      '\x22' ∉ ((t.get i).documentPath moduleFile).text.toList := fun hi =>
    not_mem_documentPath (by decide) (quotes_eq_zero.1 (ht.path hi))
      (quotes_eq_zero.1 ht.moduleFile)
  have hc : '\x22' ∉ ['.', '/', '#'] := by decide
  cases h with
  | ofModule hi =>
    dsimp only
    exact quotes_eq_zero.2 (not_mem_linkTo hc document (hdocument hi) (by simp))
  | @ofClass i c hi hmem =>
    have hanchor : ∀ a ∈ some c.anchor, '\x22' ∉ a.toList := by
      rintro a ⟨⟩
      have hsign : Text.IsSign '\x22' := by decide
      have hname := quotes_eq_zero.1 (ht.className hi c hmem)
      rw [ClassInfo.anchor, Text.lower, String.toList_ofList]
      exact fun hquote => hname (Text.mem_of_mem_lowerAfter hsign hquote)
    dsimp only
    exact quotes_eq_zero.2 (not_mem_linkTo hc document (hdocument hi) hanchor)

section Linked
variable {top : ModuleKey} {t : ModuleTree} {moduleFile : String}
  (h : Linked top t.nodes.toList) (ht : t.Inline moduleFile) {a : Artifact}
  (ha : a.Depicts t moduleFile)
include h ht ha

theorem quotesBut : a.QuotesBut := by
  obtain ⟨ids, document, lines, clicks, hlines, hlinks, hwritten, hclicks⟩ :=
    exists_lines_eq h ht ha
  constructor
  case other =>
    intro line hline hother
    rw [hlines] at hline
    rcases List.mem_append.1 hline with hline | hline
    · exact (hwritten line hline).quotes_eq.1
    · obtain ⟨click, hclick, rfl⟩ := List.mem_map.1 hline
      exact absurd (DiagramLine.read_click (hclicks click hclick).isId) (hother click.id)
  case click =>
    intro line hline id hid
    rw [hlines] at hline
    rcases List.mem_append.1 hline with hline | hline
    · exact absurd hid ((hwritten line hline).quotes_eq.2 id)
    · obtain ⟨click, hclick, rfl⟩ := List.mem_map.1 hline
      rw [DiagramLine.read_click (hclicks click hclick).isId] at hid
      obtain rfl := DiagramLine.click.inj hid
      rw [hlinks]
      exact ⟨click.link, List.mem_map.2 ⟨click, hclick, rfl⟩, (hclicks click hclick).quotes_line⟩
  case link =>
    intro p hp
    rw [hlinks] at hp
    obtain ⟨click, hclick, rfl⟩ := List.mem_map.1 hp
    rw [hlines]
    exact ⟨click.line, List.mem_append_right _ (List.mem_map_of_mem hclick),
      DiagramLine.read_click (hclicks click hclick).isId, (hclicks click hclick).quotes_line⟩

theorem quotes_link (hunquoted : t.Unquoted moduleFile) : ∀ p ∈ a.links, quotes p.2 = 0 := by
  obtain ⟨ids, document, lines, clicks, -, hlinks, -, hclicks⟩ := exists_lines_eq h ht ha
  rw [hlinks]
  exact List.forall_mem_map.2 fun click hclick => (hclicks click hclick).quotes_link hunquoted

end Linked

/-- In the diagrams of every built tree the lines have the quotes that delimit their strings, and
the line of a click has those of its link besides; where no name has a quote, neither has a link. -/
theorem aggregate_quotes (rootPaths : List Path) (files : List SourceFile)
    (classes : List ClassInfo) (moduleFile : String)
    (hinline : (aggregate rootPaths files classes).tree.Inline moduleFile) {a : Artifact}
    (ha : a.Depicts (aggregate rootPaths files classes).tree moduleFile) :
    a.QuotesBut ∧
      ((∀ line ∈ a.lines, quotes line = (DiagramLine.read line).delimiters) ↔
        ∀ p ∈ a.links, quotes p.2 = 0) ∧
      ((aggregate rootPaths files classes).tree.Unquoted moduleFile →
        ∀ p ∈ a.links, quotes p.2 = 0) :=
  have hlinked := (aggregate_built rootPaths files classes).linked
  have hquotes := quotesBut hlinked hinline ha
  ⟨hquotes, hquotes.forall_iff, quotes_link hlinked hinline ha⟩

def classBelowQuote : ClassInfo := ⟨"A", ⟨"/r/a\"b/x.py"⟩, 1, 0, 1, 1⟩

theorem inline_classBelowQuote :
    (aggregate [⟨"/r"⟩] [] [classBelowQuote]).tree.Inline "module.md" :=
  inline_of_built (aggregate_built _ _ _) (by decide) (by decide +kernel) (by decide)

theorem unquoted_classA : (aggregate [⟨"/r"⟩] [] [classA]).tree.Unquoted "module.md" where
  moduleFile := by decide
  path {i} hi := by
    have hpath : ∀ i < (aggregate [⟨"/r"⟩] [] [classA]).tree.size,
        quotes ((aggregate [⟨"/r"⟩] [] [classA]).tree.get i).path = 0 := by decide +kernel
    exact hpath i hi
  className {i} hi c hc := by
    have hmem := ((aggregate_built [⟨"/r"⟩] [] [classA]).mem_get_classes hi).1 hc
    rw [List.mem_singleton.1 hmem.1]
    decide

def componentTreeOf (c : ClassInfo) : Artifact :=
  DiagramKind.componentTree.generate (DiagramModel.build
    (aggregate [⟨"/r"⟩] [] [c]).tree "module.md" .empty).1 0 .down ⟨"overview.md"⟩

theorem depicts_componentTreeOf (c : ClassInfo) :
    (componentTreeOf c).Depicts (aggregate [⟨"/r"⟩] [] [c]).tree "module.md" :=
  ⟨.empty, .componentTree, 0, .down, ⟨"overview.md"⟩, rfl⟩

theorem quotes_componentTreeOf :
    (aggregate [⟨"/r"⟩] [] [classBelowQuote]).tree.Inline "module.md" ∧
      (componentTreeOf classBelowQuote).QuotesBut ∧
      (aggregate [⟨"/r"⟩] [] [classA]).tree.Inline "module.md" ∧
      (aggregate [⟨"/r"⟩] [] [classA]).tree.Unquoted "module.md" ∧
      ∀ line ∈ (componentTreeOf classA).lines,
        quotes line = (DiagramLine.read line).delimiters := by
  have hinline : (aggregate [⟨"/r"⟩] [] [classA]).tree.Inline "module.md" :=
    inline_of_built (aggregate_built _ _ _) (by decide) (by decide +kernel) (by decide)
  have hquote := aggregate_quotes _ _ _ _ inline_classBelowQuote (depicts_componentTreeOf _)
  obtain ⟨-, hiff, hlinks⟩ := aggregate_quotes _ _ _ _ hinline (depicts_componentTreeOf _)
  exact ⟨inline_classBelowQuote, hquote.1, hinline, unquoted_classA,
    hiff.2 (hlinks unquoted_classA)⟩

/-- A link may put a quote more into the line of its click. -/
theorem not_forall_quotes_eq_delimiters :
    ¬ ∀ (rootPaths : List Path) (files : List SourceFile) (classes : List ClassInfo)
      (moduleFile : String), (aggregate rootPaths files classes).tree.Inline moduleFile →
      ∀ a : Artifact, a.Depicts (aggregate rootPaths files classes).tree moduleFile →
        ∀ line ∈ a.lines, quotes line = (DiagramLine.read line).delimiters := by
  intro h
  have hall := h _ _ _ _ inline_classBelowQuote _ (depicts_componentTreeOf _)
  have hbut := quotesBut (aggregate_built _ _ _).linked inline_classBelowQuote
    (depicts_componentTreeOf classBelowQuote)
  have hlink : ("m1", "r/a\"b/module.md") ∈ (componentTreeOf classBelowQuote).links := by decide +kernel
  have hnone := hbut.forall_iff.1 hall _ hlink
  exact absurd hnone (by decide)

end CodeAtlas
