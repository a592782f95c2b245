import CodeAtlas.Document.Page
import CodeAtlas.Proofs.Diagram.Lines

/-!
# The lines of a page

A page is a text of lines. Its parts are given here as the texts between line feeds; a text with a
line feed of its own, such as a diagram, stands for several lines.
-/
namespace CodeAtlas
open Text

namespace Page

def anchorText (anchor : String) : String := "<a id=\"" ++ anchor ++ "\"></a>"

def rowText (cells : List String) : String := "| " ++ " | ".intercalate cells ++ " |"

def ruleText (columns : Nat) : String := "|" ++ String.join (List.replicate columns "---:|")

def diagramBlocks (d : DiagramEntry) : List String :=
  ["", "## " ++ d.title, "", fence ++ "mermaid", d.body, fence]

def submoduleText (m : ModuleEntry) : String :=
  "- [" ++ m.path ++ "](" ++ m.link ++ "): " ++ counted m.classes "class" "classes" ++ ", " ++
    counted m.totalLoc "line" "lines"

def moduleCells (m : ModuleEntry) : List String :=
  ["[" ++ m.path ++ "](" ++ m.link ++ ")", toString m.classes, toString m.totalLoc]

def classBlocks (c : ClassEntry) : List String :=
  ["", anchorText c.anchor, "### " ++ c.name, "",
    "- File: " ++ code c.file ++ " (lines " ++ toString c.startLine ++ "-" ++
      toString c.endLine ++ ")",
    "- Lines of code: " ++ toString c.loc, "- Methods: " ++ toString c.methods]

def optionalBlocks {α : Type} (entries : List α) (before : List String) (blocks : α → List String) :
    List String :=
  if entries.isEmpty then [] else "" :: before ++ entries.flatMap blocks

/-! A literal that ends a line is taken apart before the line feed. -/

theorem twoFeeds : "\n\n" = "\n" ++ "\n" := by decide

theorem row_eq (cells : List String) : row cells = unlines [rowText cells] := by
  have hend : " |\n" = " |" ++ "\n" := by decide
  rw [row, rowText, hend, unlines_cons, unlines_nil]
  simp only [String.append_assoc, String.append_empty]

theorem rightRule_eq (columns : Nat) : rightRule columns = unlines [ruleText columns] := by
  rw [rightRule, ruleText, unlines_cons, unlines_nil, String.append_empty]

theorem diagramSection_eq (d : DiagramEntry) : diagramSection d = unlines (diagramBlocks d) := by
  have hstart : "\n## " = "\n" ++ "## " := by decide
  have hfence : "mermaid\n" = "mermaid" ++ "\n" := by decide
  rw [diagramSection, diagramBlocks, hstart, hfence, twoFeeds]
  simp only [unlines_cons, unlines_nil, String.append_assoc, String.append_empty,
    String.empty_append]

theorem submoduleLine_eq (m : ModuleEntry) : submoduleLine m = unlines [submoduleText m] := by
  rw [unlines_cons, unlines_nil, String.append_empty]
  rfl

theorem moduleRow_eq (m : ModuleEntry) : moduleRow m = unlines [rowText (moduleCells m)] :=
  row_eq _

theorem classSection_eq (c : ClassEntry) : classSection c = unlines (classBlocks c) := by
  have hanchor : "\"></a>\n" = "\"></a>" ++ "\n" := by decide
  have hfile : ")\n" = ")" ++ "\n" := by decide
  delta classSection classBlocks anchorLine anchorText
  rw [hanchor, hfile, twoFeeds]
  simp only [unlines_cons, unlines_nil, String.append_assoc, String.append_empty,
    String.empty_append]

theorem optionalSection_eq {α : Type} {entries : List α} {before : String}
    {blocksBefore : List String} {entry : α → String} {blocks : α → List String}
    (hbefore : before = unlines blocksBefore) (hentry : ∀ x, entry x = unlines (blocks x)) :
    optionalSection entries before entry = unlines (optionalBlocks entries blocksBefore blocks) := by
  unfold optionalSection optionalBlocks
  split
  · rfl
  · have hentries : entry = fun x => unlines (blocks x) := funext hentry
    rw [List.cons_append, ← List.singleton_append, unlines_append, unlines_append, unlines_flatMap,
      hbefore, hentries, String.append_assoc]
    rfl

end Page

open Page

namespace ModulePage

def before (p : ModulePage) : List String :=
  ["# " ++ p.title, "", Text.capitalize p.kind ++ " " ++ code p.path, "", rowText statsHeads,
    ruleText 4, rowText (statsCells p.stats)]

def after (p : ModulePage) : List String :=
  optionalBlocks p.children ["## Submodules", ""] (fun m => [submoduleText m]) ++
    optionalBlocks p.classes ["## Classes"] classBlocks ++ [""]

def blocks (p : ModulePage) : List String :=
  p.before ++ p.diagrams.flatMap diagramBlocks ++ p.after

theorem render_eq (p : ModulePage) : p.render = unlines p.blocks := by
  have hdiagrams : diagramSection = fun d => unlines (diagramBlocks d) := funext diagramSection_eq
  have hsubmodules : "## Submodules\n\n" = unlines ["## Submodules", ""] := by decide
  have hclasses : "## Classes\n" = unlines ["## Classes"] := by decide
  delta render blocks before after
  rw [optionalSection_eq hsubmodules submoduleLine_eq, optionalSection_eq hclasses classSection_eq,
    hdiagrams, row_eq, row_eq, rightRule_eq, twoFeeds]
  simp only [unlines_append, unlines_cons, unlines_nil, unlines_flatMap, String.append_assoc,
    String.append_empty, String.empty_append]

end ModulePage

namespace OverviewPage

def before (p : OverviewPage) : List String :=
  ["# " ++ p.title, "", "Generated from " ++ counted p.roots.length "root" "roots" ++ ": " ++
      ", ".intercalate (p.roots.map code), "",
    rowText (["Files discovered", "Files analyzed"] ++ statsHeads), ruleText 6,
    rowText ([toString p.filesDiscovered, toString p.filesAnalyzed] ++ statsCells p.stats)] ++
  if p.languages.isEmpty then [] else ["", "Languages: " ++ ", ".intercalate p.languages]

def after (p : OverviewPage) : List String :=
  optionalBlocks p.modules
      ["## Modules", "", rowText ["Module", "Classes", "Total lines"], "|---|---:|---:|"]
      (fun m => [rowText (moduleCells m)]) ++
    optionalBlocks p.warnings ["## Warnings", ""] (fun w => ["- " ++ w]) ++ [""]

def blocks (p : OverviewPage) : List String :=
  p.before ++ p.diagrams.flatMap diagramBlocks ++ p.after

theorem render_eq (p : OverviewPage) : p.render = unlines p.blocks := by
  have hdiagrams : diagramSection = fun d => unlines (diagramBlocks d) := funext diagramSection_eq
  have hmodules : "## Modules\n\n" ++ row ["Module", "Classes", "Total lines"] ++
      "|---|---:|---:|\n" = unlines
        ["## Modules", "", rowText ["Module", "Classes", "Total lines"], "|---|---:|---:|"] := by
    decide
  have hwarnings : "## Warnings\n\n" = unlines ["## Warnings", ""] := by decide
  have hwarning : ∀ w, "- " ++ w ++ "\n" = unlines ["- " ++ w] := fun w => by
    rw [unlines_cons, unlines_nil, String.append_empty]
  have hlanguages : "\nLanguages: " = "\n" ++ "Languages: " := by decide
  have hspoken : (if p.languages.isEmpty then ""
      else "\nLanguages: " ++ ", ".intercalate p.languages ++ "\n") = unlines
        (if p.languages.isEmpty then [] else ["", "Languages: " ++ ", ".intercalate p.languages]) := by
    split
    · rfl
    · simp only [hlanguages, unlines_cons, unlines_nil, String.append_assoc, String.append_empty,
        String.empty_append]
  delta render blocks before after
  rw [hspoken, optionalSection_eq hmodules moduleRow_eq, optionalSection_eq hwarnings hwarning,
    hdiagrams, row_eq, row_eq, rightRule_eq, twoFeeds]
  simp only [unlines_append, unlines_cons, unlines_nil, unlines_flatMap, String.append_assoc,
    String.append_empty, String.empty_append]

end OverviewPage

/-! ### The lines of anchors -/

/-- Whether no text on a page but the diagrams has a line feed, and the diagrams no HTML. -/
structure ModulePage.Inline (p : ModulePage) : Prop where
  title : OneLine p.title
  path : OneLine p.path
  kind : PlainLine (Text.capitalize p.kind)
  kind_ne : Text.capitalize p.kind ≠ ""
  diagrams : ∀ d ∈ p.diagrams, OneLine d.title ∧
    ∀ line : String, line.toList.head? = some '<' → countLines line d.body = 0
  children : ∀ m ∈ p.children, OneLine m.path ∧ OneLine m.link
  classes : ∀ c ∈ p.classes, OneLine c.name ∧ OneLine c.anchor ∧ '/' ∉ c.file.toList

namespace Page

theorem head?_anchorText (anchor : String) : (anchorText anchor).toList.head? = some '<' := by
  simp [anchorText]

theorem slash_mem_anchorText (anchor : String) : '/' ∈ (anchorText anchor).toList := by
  simp [anchorText]

theorem anchorText_inj {a b : String} : anchorText a = anchorText b ↔ a = b := by
  simp [anchorText]

theorem oneLine_anchorText {anchor : String} (h : OneLine anchor) : OneLine (anchorText anchor) := by
  rw [anchorText, oneLine_append, oneLine_append]
  exact ⟨⟨by decide, h⟩, by decide⟩

theorem oneLine_code {s : String} (h : OneLine s) : OneLine (code s) := by
  rw [code, oneLine_append, oneLine_append]
  exact ⟨⟨by decide, h⟩, by decide⟩

theorem oneLine_averageText (total count : Nat) : OneLine (Number.averageText total count) := by
  unfold Number.averageText
  split
  · decide
  · rw [Number.Fraction.oneDecimal, oneLine_append, oneLine_append]
    exact ⟨⟨oneLine_toString _, by decide⟩, oneLine_toString _⟩

theorem plain_rowText {cells : List String} (h : ∀ s ∈ cells, OneLine s) :
    PlainLine (rowText cells) := by
  have hstart : PlainLine "| " := by decide
  rw [rowText, String.append_assoc]
  apply hstart.append (by decide)
  exact oneLine_append.2 ⟨oneLine_intercalate (by decide) h, by decide⟩

theorem oneLine_statsCells (s : Stats) : ∀ cell ∈ statsCells s, OneLine cell := by
  simp only [statsCells, List.forall_mem_cons]
  exact ⟨oneLine_toString _, oneLine_toString _, oneLine_averageText _ _, oneLine_toString _,
    by simp⟩

theorem plain_submoduleText {m : ModuleEntry} (hpath : OneLine m.path) (hlink : OneLine m.link) :
    PlainLine (submoduleText m) := by
  have hstart : PlainLine "- [" := by decide
  simp only [submoduleText, String.append_assoc]
  apply hstart.append (by decide)
  simp only [oneLine_append, hpath, hlink,
    oneLine_counted _ (show OneLine "class" by decide) (show OneLine "classes" by decide),
    oneLine_counted _ (show OneLine "line" by decide) (show OneLine "lines" by decide)]
  decide

theorem sum_countLines_plain {line : String} (hline : line.toList.head? = some '<')
    {blocks : List String} (h : ∀ b ∈ blocks, PlainLine b) :
    (blocks.map (countLines line)).sum = 0 :=
  sum_map_eq_zero fun b hb => (h b hb).countLines_eq_zero hline

theorem sum_optionalBlocks {α : Type} (f : String → Nat) {entries : List α} {before : List String}
    {blocks : α → List String} (hbefore : ((before.map f).sum) = 0) (hempty : f "" = 0) :
    ((optionalBlocks entries before blocks).map f).sum =
      (entries.map fun x => ((blocks x).map f).sum).sum := by
  cases entries with
  | nil => rfl
  | cons x xs =>
    simp only [optionalBlocks, List.isEmpty_cons, Bool.false_eq_true, if_false, List.cons_append,
      List.map_cons, List.map_append, List.sum_cons, List.sum_append, hbefore, hempty, zero_add,
      List.flatMap_cons]
    congr 1
    rw [List.map_flatMap, List.flatMap, List.sum_flatten, List.map_map]
    rfl

theorem not_mem_code {c : Char} {s : String} (hc : c ≠ '\x60') (h : c ∉ s.toList) :
    c ∉ (code s).toList := by
  simp [code, hc, h]

theorem sum_classBlocks (anchor : String) {c : ClassEntry} (hname : OneLine c.name)
    (hanchor : OneLine c.anchor) (hfile : '/' ∉ c.file.toList) :
    ((classBlocks c).map (countLines (anchorText anchor))).sum =
      if c.anchor = anchor then 1 else 0 := by
  have hline := head?_anchorText anchor
  have hempty : PlainLine "" := by decide
  have hown : countLines (anchorText anchor) (anchorText c.anchor) =
      if c.anchor = anchor then 1 else 0 := by
    rw [countLines_of_oneLine (oneLine_anchorText hanchor)]
    simp only [anchorText_inj]
  have htitle : PlainLine ("### " ++ c.name) :=
    PlainLine.append (by decide) (by decide) hname
  have hloc : PlainLine ("- Lines of code: " ++ toString c.loc) :=
    PlainLine.append (by decide) (by decide) (oneLine_toString c.loc)
  have hmethods : PlainLine ("- Methods: " ++ toString c.methods) :=
    PlainLine.append (by decide) (by decide) (oneLine_toString c.methods)
  -- The name of a file may have a line feed, but no slash.
  have hplace : countLines (anchorText anchor) ("- File: " ++ code c.file ++ " (lines " ++
      toString c.startLine ++ "-" ++ toString c.endLine ++ ")") = 0 := by
    apply countLines_eq_zero_of_not_mem (slash_mem_anchorText anchor)
    have hdigits := not_mem_toString (c := '/') (by decide)
    simp only [String.toList_append, List.mem_append, not_or]
    exact ⟨⟨⟨⟨⟨⟨by decide, not_mem_code (by decide) hfile⟩, by decide⟩, hdigits _⟩, by decide⟩,
      hdigits _⟩, by decide⟩
  simp only [classBlocks, List.map_cons, List.map_nil, List.sum_cons, List.sum_nil, hown, hplace,
    hempty.countLines_eq_zero hline, htitle.countLines_eq_zero hline,
    hloc.countLines_eq_zero hline, hmethods.countLines_eq_zero hline]
  omega

theorem sum_diagramBlocks {line : String} (hline : line.toList.head? = some '<') {d : DiagramEntry}
    (htitle : OneLine d.title) (hbody : countLines line d.body = 0) :
    ((diagramBlocks d).map (countLines line)).sum = 0 := by
  have hempty : PlainLine "" := by decide
  have hheading : PlainLine ("## " ++ d.title) := PlainLine.append (by decide) (by decide) htitle
  have hopen : countLines line (fence ++ "mermaid") = 0 :=
    countLines_eq_zero_of_head? (by decide) (by rw [hline]; decide)
  have hclose : countLines line fence = 0 :=
    countLines_eq_zero_of_head? (by decide) (by rw [hline]; decide)
  simp only [diagramBlocks, List.map_cons, List.map_nil, List.sum_cons, List.sum_nil, hbody,
    hempty.countLines_eq_zero hline, hheading.countLines_eq_zero hline,
    hopen, hclose]
  rfl

end Page

theorem ModulePage.Inline.plain_before {p : ModulePage} (h : p.Inline) :
    ∀ b ∈ p.before, PlainLine b := by
  have htitle : PlainLine ("# " ++ p.title) := PlainLine.append (by decide) (by decide) h.title
  have hkind : PlainLine (Text.capitalize p.kind ++ " " ++ code p.path) := by
    rw [String.append_assoc]
    exact h.kind.append h.kind_ne (oneLine_append.2 ⟨by decide, oneLine_code h.path⟩)
  simp only [before, List.forall_mem_cons]
  exact ⟨htitle, by decide, hkind, by decide, plain_rowText (by decide), by decide,
    plain_rowText (oneLine_statsCells p.stats), by simp⟩

/-- The line of an anchor stands on a page once for each class with this anchor. -/
theorem ModulePage.Inline.countLines_anchorText {p : ModulePage} (h : p.Inline) (anchor : String) :
    countLines (anchorText anchor) p.render = p.classes.countP fun c => c.anchor = anchor := by
  have hline := head?_anchorText anchor
  have hempty : countLines (anchorText anchor) "" = 0 :=
    PlainLine.countLines_eq_zero (by decide) hline
  have hdiagrams : ((p.diagrams.flatMap diagramBlocks).map (countLines (anchorText anchor))).sum =
      0 := by
    rw [List.map_flatMap, List.flatMap, List.sum_flatten, List.map_map]
    exact sum_map_eq_zero fun d hd =>
      sum_diagramBlocks hline (h.diagrams d hd).1 ((h.diagrams d hd).2 _ hline)
  have hchildren : (p.children.map fun m =>
      (([submoduleText m]).map (countLines (anchorText anchor))).sum).sum = 0 :=
    sum_map_eq_zero fun m hm => by
      obtain ⟨hpath, hlink⟩ := h.children m hm
      simpa using (plain_submoduleText hpath hlink).countLines_eq_zero hline
  have hclasses : (p.classes.map fun c =>
      ((classBlocks c).map (countLines (anchorText anchor))).sum) =
        p.classes.map fun c => if c.anchor = anchor then 1 else 0 := by
    apply List.map_congr_left
    intro c hc
    obtain ⟨hname, hanchor, hfile⟩ := h.classes c hc
    exact sum_classBlocks anchor hname hanchor hfile
  have hsub : (["## Submodules", ""].map (countLines (anchorText anchor))).sum = 0 :=
    sum_countLines_plain hline (by decide)
  have hcls : (["## Classes"].map (countLines (anchorText anchor))).sum = 0 :=
    sum_countLines_plain hline (by decide)
  rw [render_eq, countLines_unlines, hempty, blocks, after]
  simp only [List.map_append, List.sum_append]
  rw [sum_countLines_plain hline h.plain_before, hdiagrams, sum_optionalBlocks _ hsub hempty, hchildren,
    sum_optionalBlocks _ hcls hempty, hclasses, sum_map_ite]
  simp [hempty]

/-- A line that the path of a module reads like is there once more. -/
theorem ModulePage.two_le_countLines (p : ModulePage) {c : ClassEntry} (hanchor : OneLine c.anchor)
    (hpath : countLines (anchorText c.anchor) (Text.capitalize p.kind ++ " " ++ code p.path) = 1)
    (hc : c ∈ p.classes) : 2 ≤ countLines (anchorText c.anchor) p.render := by
  have hblock : anchorText c.anchor ∈ optionalBlocks p.classes ["## Classes"] classBlocks := by
    rw [optionalBlocks, if_neg (by simpa using List.ne_nil_of_mem hc)]
    exact List.mem_append_right _ (List.mem_flatMap.2 ⟨c, hc, by simp [classBlocks]⟩)
  have hone : countLines (anchorText c.anchor) (anchorText c.anchor) = 1 := by
    rw [countLines_of_oneLine (oneLine_anchorText hanchor), if_pos rfl]
  have hle := List.le_sum_of_mem (List.mem_map_of_mem (f := countLines (anchorText c.anchor)) hblock)
  rw [render_eq, countLines_unlines, blocks, before, after]
  simp only [List.map_append, List.sum_append, List.map_cons, List.sum_cons, hpath]
  omega

end CodeAtlas
