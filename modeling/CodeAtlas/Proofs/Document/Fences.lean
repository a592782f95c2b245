import CodeAtlas.Proofs.Diagram.Quotes
import CodeAtlas.Proofs.Document.Anchors

/-!
# Reading diagrams back

On a page each diagram stands between the lines of two fences. No other line of the page begins as a
fence does, whatever the names in it, and no line of a diagram either, so whoever reads the page line
by line gets the diagrams back as they were.
-/
namespace CodeAtlas
open Text

namespace Page

def openFence : String := fence ++ "mermaid"

/-- Takes what stands between each line that opens a diagram and the next fence; of an open diagram
the lines so far are given. -/
def readFences : Option (List String) → List String → List String
  | _, [] => []
  | none, line :: rest => readFences (if line = openFence then some [] else none) rest
  | some body, line :: rest =>
    if line = fence then "\n".intercalate body :: readFences none rest
    else readFences (some (body ++ [line])) rest

/-- Whether the diagrams that a text is read to have are the given ones, with carriage returns at
the ends of its lines or without them. -/
def ReadsAs (content : String) (diagrams : List String) : Prop :=
  readFences none (rawLines content) = diagrams ∧ readFences none (bareLines content) = diagrams

/-- Whether a text is a line that does not begin as a fence does. -/
def ProseLine (s : String) : Prop := OneLine s ∧ s.toList.head? ≠ some '\x60'

instance (s : String) : Decidable (ProseLine s) := inferInstanceAs (Decidable (_ ∧ _))

end Page

open Page

/-- Whether the lines of a diagram stay apart from the fences around it. -/
structure DiagramEntry.Readable (d : DiagramEntry) : Prop where
  title : OneLine d.title
  ne_fence : ∀ line ∈ rawLines d.body, line ≠ fence
  not_return : ∀ line ∈ rawLines d.body, line.toList.getLast? ≠ some '\r'

theorem PlainLine.prose {s : String} (h : PlainLine s) : ProseLine s :=
  ⟨h.1, h.2.2⟩

namespace Page

theorem ProseLine.ne_fence {s : String} (h : ProseLine s) : s ≠ fence := by
  rintro rfl
  exact h.2 (by decide)

/-! ### Reading lines -/

/-- Whether of a line no more is taken than a carriage return that ends it. -/
structure Trims (f : String → String) : Prop where
  isPrefix : ∀ line, (f line).toList <+: line.toList
  self : ∀ {line : String}, line.toList.getLast? ≠ some '\r' → f line = line

theorem trims_id : Trims id := ⟨fun _ => List.prefix_rfl, fun _ => rfl⟩

theorem trims_withoutReturn : Trims withoutReturn :=
  ⟨withoutReturn_isPrefix, withoutReturn_eq_self⟩

section Trims
variable {f : String → String} (hf : Trims f)
include hf

theorem ProseLine.trim_ne {line : String} (h : ProseLine line) : f line ≠ openFence := by
  intro he
  obtain ⟨rest, hrest⟩ := hf.isPrefix line
  have hopen : openFence.toList = '\x60' :: openFence.toList.tail := by decide
  rw [he, hopen, List.cons_append] at hrest
  exact h.2 (by rw [← hrest, List.head?_cons])

theorem readFences_prose {blocks : List String} (h : ∀ b ∈ blocks, ProseLine b)
    (rest : List String) :
    readFences none ((blocks.flatMap rawLines).map f ++ rest) = readFences none rest := by
  induction blocks with
  | nil => rfl
  | cons b blocks ih =>
    obtain ⟨hb, hblocks⟩ := List.forall_mem_cons.1 h
    rw [List.flatMap_cons, rawLines_of_oneLine hb.1, List.singleton_append, List.map_cons,
      List.cons_append, readFences, if_neg (hb.trim_ne hf), ih hblocks]

omit hf in
theorem readFences_body {lines : List String} (h : ∀ line ∈ lines, line ≠ fence)
    (body rest : List String) :
    readFences (some body) (lines ++ fence :: rest) =
      "\n".intercalate (body ++ lines) :: readFences none rest := by
  induction lines generalizing body with
  | nil => rw [List.nil_append, readFences, if_pos rfl, List.append_nil]
  | cons line lines ih =>
    obtain ⟨hline, hlines⟩ := List.forall_mem_cons.1 h
    rw [List.cons_append, readFences, if_neg hline, ih hlines, List.append_assoc,
      List.singleton_append]

theorem readFences_diagram {d : DiagramEntry} (h : d.Readable) (rest : List String) :
    readFences none (((diagramBlocks d).flatMap rawLines).map f ++ rest) =
      d.body :: readFences none rest := by
  have hfence : f fence = fence := hf.self (by decide)
  have hopen : f openFence = openFence := hf.self (by decide)
  have hbody : (rawLines d.body).map f = rawLines d.body :=
    List.map_congr_left (fun line hline => hf.self (h.not_return line hline)) |>.trans
      (List.map_id _)
  have hheading : ∀ b ∈ ["", "## " ++ d.title, ""], ProseLine b := by
    have htitle : PlainLine ("## " ++ d.title) := PlainLine.append (by decide) (by decide) h.title
    simp only [List.forall_mem_cons]
    exact ⟨by decide, htitle.prose, by decide, by simp⟩
  have hblocks : diagramBlocks d = ["", "## " ++ d.title, ""] ++ [openFence, d.body, fence] := rfl
  have hlines : ([openFence, d.body, fence].flatMap rawLines).map f =
      openFence :: (rawLines d.body ++ [fence]) := by
    simp only [List.flatMap_cons, List.flatMap_nil, List.append_nil, List.singleton_append,
      rawLines_of_oneLine (show OneLine openFence by decide),
      rawLines_of_oneLine (show OneLine fence by decide), List.map_cons, List.map_append,
      List.map_nil, hopen, hbody, hfence]
  rw [hblocks, List.flatMap_append, List.map_append, List.append_assoc,
    readFences_prose hf hheading, hlines, List.cons_append, readFences, if_pos rfl,
    List.append_assoc, List.singleton_append, readFences_body h.ne_fence, List.nil_append,
    intercalate_rawLines]

theorem readFences_diagrams {diagrams : List DiagramEntry} (h : ∀ d ∈ diagrams, d.Readable)
    (rest : List String) :
    readFences none (((diagrams.flatMap diagramBlocks).flatMap rawLines).map f ++ rest) =
      diagrams.map (·.body) ++ readFences none rest := by
  induction diagrams with
  | nil => rfl
  | cons d diagrams ih =>
    obtain ⟨hd, hdiagrams⟩ := List.forall_mem_cons.1 h
    rw [List.flatMap_cons, List.flatMap_append, List.map_append, List.append_assoc,
      readFences_diagram hf hd, ih hdiagrams, List.map_cons, List.cons_append]

theorem readFences_page {before after : List String} {diagrams : List DiagramEntry}
    (hbefore : ∀ b ∈ before, ProseLine b) (hafter : ∀ b ∈ after, ProseLine b)
    (hdiagrams : ∀ d ∈ diagrams, d.Readable) (rest : List String) :
    readFences none (((before ++ diagrams.flatMap diagramBlocks ++ after).flatMap
      rawLines).map f ++ rest) = diagrams.map (·.body) ++ readFences none rest := by
  rw [List.flatMap_append, List.flatMap_append, List.map_append, List.map_append,
    List.append_assoc, List.append_assoc, readFences_prose hf hbefore,
    readFences_diagrams hf hdiagrams, readFences_prose hf hafter]

end Trims

/-- A page reads as its diagrams if the lines around them are prose. -/
theorem readsAs_unlines {before after : List String} {diagrams : List DiagramEntry}
    (hbefore : ∀ b ∈ before, ProseLine b) (hafter : ∀ b ∈ after, ProseLine b)
    (hdiagrams : ∀ d ∈ diagrams, d.Readable) :
    ReadsAs (unlines (before ++ diagrams.flatMap diagramBlocks ++ after))
      (diagrams.map (·.body)) := by
  -- Cut at the line feeds alone, the text has an empty line behind the last one.
  have hraw := readFences_page trims_id hbefore hafter hdiagrams [""]
  have hbare := readFences_page trims_withoutReturn hbefore hafter hdiagrams []
  rw [List.map_id] at hraw
  rw [List.append_nil] at hbare
  constructor
  · rw [rawLines_unlines, hraw]
    exact List.append_nil _
  · rw [bareLines_unlines, hbare]
    exact List.append_nil _

/-! ### The prose of pages -/

theorem forall_mem_optionalBlocks {α : Type} {p : String → Prop} {entries : List α}
    {before : List String} {blocks : α → List String} (hempty : p "") (hbefore : ∀ b ∈ before, p b)
    (h : ∀ x ∈ entries, ∀ b ∈ blocks x, p b) : ∀ b ∈ optionalBlocks entries before blocks, p b := by
  intro b hb
  unfold optionalBlocks at hb
  split at hb
  · exact absurd hb List.not_mem_nil
  · rcases List.mem_append.1 hb with hb | hb
    · rcases List.mem_cons.1 hb with rfl | hb
      · exact hempty
      · exact hbefore b hb
    · obtain ⟨x, hx, hb⟩ := List.mem_flatMap.1 hb
      exact h x hx b hb

theorem prose_classBlocks {c : ClassEntry} (hname : OneLine c.name) (hanchor : OneLine c.anchor)
    (hfile : OneLine c.file) : ∀ b ∈ classBlocks c, ProseLine b := by
  have hline : ProseLine (anchorText c.anchor) :=
    ⟨oneLine_anchorText hanchor, by rw [head?_anchorText]; decide⟩
  have htitle : PlainLine ("### " ++ c.name) :=
    PlainLine.append (by decide) (by decide) hname
  have hplace : PlainLine ("- File: " ++ code c.file ++ " (lines " ++ toString c.startLine ++ "-" ++
      toString c.endLine ++ ")") := by
    have hstart : PlainLine "- File: " := by decide
    simp only [String.append_assoc]
    apply hstart.append (by decide)
    simp only [oneLine_append, oneLine_code hfile, oneLine_toString]
    decide
  have hloc : PlainLine ("- Lines of code: " ++ toString c.loc) :=
    PlainLine.append (by decide) (by decide) (oneLine_toString c.loc)
  have hmethods : PlainLine ("- Methods: " ++ toString c.methods) :=
    PlainLine.append (by decide) (by decide) (oneLine_toString c.methods)
  simp only [classBlocks, List.forall_mem_cons]
  exact ⟨by decide, hline, htitle.prose, by decide, hplace.prose, hloc.prose, hmethods.prose,
    by simp⟩

end Page

theorem ModulePage.Inline.prose_after {p : ModulePage} (h : p.Inline)
    (hfile : ∀ c ∈ p.classes, OneLine c.file) : ∀ b ∈ p.after, ProseLine b := by
  have hchildren : ∀ m ∈ p.children, ∀ b ∈ [submoduleText m], ProseLine b := by
    intro m hm b hb
    obtain rfl := List.mem_singleton.1 hb
    obtain ⟨hpath, hlink⟩ := h.children m hm
    exact (plain_submoduleText hpath hlink).prose
  have hclasses : ∀ c ∈ p.classes, ∀ b ∈ classBlocks c, ProseLine b := fun c hc =>
    prose_classBlocks (h.classes c hc).1 (h.classes c hc).2.1 (hfile c hc)
  simp only [after, List.forall_mem_append]
  exact ⟨⟨forall_mem_optionalBlocks (by decide) (by decide) hchildren,
    forall_mem_optionalBlocks (by decide) (by decide) hclasses⟩, by decide⟩

structure OverviewPage.Inline (p : OverviewPage) : Prop where
  title : OneLine p.title
  roots : ∀ r ∈ p.roots, OneLine r
  languages : ∀ s ∈ p.languages, OneLine s
  modules : ∀ m ∈ p.modules, OneLine m.path ∧ OneLine m.link
  warnings : ∀ w ∈ p.warnings, OneLine w

namespace OverviewPage.Inline
variable {p : OverviewPage} (h : p.Inline)
include h

theorem plain_before : ∀ b ∈ p.before, PlainLine b := by
  have htitle : PlainLine ("# " ++ p.title) := PlainLine.append (by decide) (by decide) h.title
  have hroots : PlainLine ("Generated from " ++ counted p.roots.length "root" "roots" ++ ": " ++
      ", ".intercalate (p.roots.map code)) := by
    have hstart : PlainLine "Generated from " := by decide
    have hcodes : OneLine (", ".intercalate (p.roots.map code)) :=
      oneLine_intercalate (by decide) (List.forall_mem_map.2 fun r hr => oneLine_code (h.roots r hr))
    simp only [String.append_assoc]
    apply hstart.append (by decide)
    simp only [oneLine_append, hcodes,
      oneLine_counted _ (show OneLine "root" by decide) (show OneLine "roots" by decide)]
    decide
  have hcounts : PlainLine (rowText ([toString p.filesDiscovered, toString p.filesAnalyzed] ++
      statsCells p.stats)) := by
    apply plain_rowText
    simp only [List.forall_mem_append, List.forall_mem_cons]
    exact ⟨⟨oneLine_toString _, oneLine_toString _, by simp⟩, oneLine_statsCells p.stats⟩
  have hlanguages : ∀ b ∈ (if p.languages.isEmpty then []
      else ["", "Languages: " ++ ", ".intercalate p.languages]), PlainLine b := by
    have hspoken : PlainLine ("Languages: " ++ ", ".intercalate p.languages) :=
      PlainLine.append (by decide) (by decide) (oneLine_intercalate (by decide) h.languages)
    split
    · simp
    · simp only [List.forall_mem_cons]
      exact ⟨by decide, hspoken, by simp⟩
  simp only [before, List.forall_mem_append, List.forall_mem_cons]
  exact ⟨⟨htitle, by decide, hroots, by decide, plain_rowText (by decide), by decide, hcounts,
    by simp⟩, hlanguages⟩

theorem plain_after : ∀ b ∈ p.after, PlainLine b := by
  have hmodules : ∀ m ∈ p.modules, ∀ b ∈ [rowText (moduleCells m)], PlainLine b := by
    intro m hm b hb
    obtain rfl := List.mem_singleton.1 hb
    obtain ⟨hpath, hlink⟩ := h.modules m hm
    have hcell : OneLine ("[" ++ m.path ++ "](" ++ m.link ++ ")") := by
      simp only [oneLine_append, hpath, hlink]
      decide
    apply plain_rowText
    simp only [moduleCells, List.forall_mem_cons]
    exact ⟨hcell, oneLine_toString _, oneLine_toString _, by simp⟩
  have hwarnings : ∀ w ∈ p.warnings, ∀ b ∈ ["- " ++ w], PlainLine b := by
    intro w hw b hb
    obtain rfl := List.mem_singleton.1 hb
    exact PlainLine.append (by decide) (by decide) (h.warnings w hw)
  simp only [after, List.forall_mem_append]
  exact ⟨⟨forall_mem_optionalBlocks (by decide) (by decide) hmodules,
    forall_mem_optionalBlocks (by decide) (by decide) hwarnings⟩, by decide⟩

end OverviewPage.Inline

/-! ### The lines of diagrams -/

theorem getLast?_append_ne {c : Char} (a : String) {s : String} (hne : s ≠ "")
    (h : c ∉ s.toList) : (a ++ s).toList.getLast? ≠ some c := by
  rw [String.toList_append, List.getLast?_append_of_ne_nil _ (String.toList_eq_nil_iff.not.2 hne)]
  exact fun hlast => h (List.mem_of_getLast? hlast)

theorem getLast?_append_quoted_ne (a s : String) :
    (a ++ quoted s).toList.getLast? ≠ some '\r' := by
  rw [quoted, ← String.append_assoc]
  exact getLast?_append_ne _ (by decide) (by decide)

section Written
variable {t : ModuleTree} {ids : IdSupply}

theorem WrittenLine.not_return {line : String} (h : WrittenLine t ids line) :
    line.toList.getLast? ≠ some '\r' := by
  cases h with
  | header direction => cases direction <;> decide
  | closing depth => exact getLast?_append_ne _ (by decide) (by decide)
  | opening | moduleNode | classNode => exact getLast?_append_quoted_ne _ _
  | edge i j =>
    refine getLast?_append_ne _ (by simp [IdSupply.moduleText]) ?_
    rw [IdSupply.moduleText, String.toList_append, List.mem_append, not_or]
    exact ⟨by decide, not_mem_toString (by decide) _⟩

theorem Click.not_return (c : Click) : c.line.toList.getLast? ≠ some '\r' := by
  change ("    click " ++ c.id ++ " \"" ++ c.link ++ "\" \"" ++ c.tip ++ "\"").toList.getLast? ≠ _
  exact getLast?_append_ne _ (by decide) (by decide)

end Written

/-! ### Documents -/

structure OverviewInfo.Inline (info : OverviewInfo) : Prop where
  title : OneLine info.title
  roots : ∀ p ∈ info.roots, OneLine p.text
  languages : ∀ s ∈ info.languages, OneLine s
  warnings : ∀ w ∈ info.warnings, OneLine w.path.text ∧ OneLine w.message

theorem Warning.oneLine_display {w : Warning} (hpath : OneLine w.path.text)
    (hmessage : OneLine w.message) : OneLine w.display := by
  have hlabel : OneLine w.kind.label := by cases w.kind <;> decide
  unfold display
  split <;> simp only [oneLine_append, hpath, hmessage, hlabel, oneLine_toString] <;> decide

theorem Path.oneLine_fileName {p : Path} (h : OneLine p.text) : OneLine (p.fileName?.getD "") := by
  cases hname : p.fileName? with
  | none => decide
  | some s =>
    obtain ⟨c, hc, hs⟩ := Option.bind_eq_some_iff.1 hname
    have hmem : s ∈ p.names := List.mem_filterMap.2 ⟨c, List.mem_of_getLast? hc, hs⟩
    exact fun hfeed => h (Path.subset_of_mem_names hmem hfeed)

namespace Layout

section Built
variable {roots : List ModuleRoot} {classes : List ClassInfo} {t : ModuleTree} {l : Layout}
  (h : Built roots classes t) (ht : t.Inline l.moduleFile)
include h ht

theorem readable_entry {a : Artifact} (ha : a.Depicts t l.moduleFile) : a.entry.Readable := by
  obtain ⟨ids, document, lines, clicks, hlines, -, hwritten, -⟩ := exists_lines_eq h.linked ht ha
  have hplain := plainLine_of_mem_lines h.linked ht ha
  have hends : ∀ line ∈ a.lines, line.toList.getLast? ≠ some '\r' := by
    rw [hlines]
    exact List.forall_mem_append.2 ⟨fun line hline => (hwritten line hline).not_return,
      List.forall_mem_map.2 fun click _ => click.not_return⟩
  exact ⟨oneLine_title _, fun line hline => (hplain line hline).prose.ne_fence, hends⟩

theorem inline_overviewPage (d : DocumentTarget) (artifacts : List Artifact) {info : OverviewInfo}
    (hinfo : info.Inline) : (l.overviewPage t d artifacts info).Inline := by
  constructor <;> simp only [overviewPage]
  case title => exact hinfo.title
  case roots => exact List.forall_mem_map.2 hinfo.roots
  case languages => exact hinfo.languages
  case modules =>
    rw [documented_eq h.linked, List.map_map]
    exact List.forall_mem_map.2 fun i hi =>
      inline_entry ht _ (ModuleTree.mem_documentedIds.1 hi).1
  case warnings =>
    exact List.forall_mem_map.2 fun w hw =>
      Warning.oneLine_display (hinfo.warnings w hw).1 (hinfo.warnings w hw).2

theorem readsAs_render (hs : Spelled t) (hfiles : ∀ c ∈ classes, OneLine c.file.text)
    {d : DocumentTarget} (hd : d ∈ l.targets t) {artifacts : List Artifact}
    (ha : ∀ a ∈ artifacts, a.Depicts t l.moduleFile) {info : OverviewInfo} (hinfo : info.Inline) :
    ReadsAs (l.render t d artifacts info).content (artifacts.map (·.diagram)) := by
  have hentries : ∀ e ∈ artifacts.map Artifact.entry, e.Readable :=
    List.forall_mem_map.2 fun a hmem => readable_entry h ht (ha a hmem)
  have hbodies : (artifacts.map Artifact.entry).map (·.body) = artifacts.map (·.diagram) := by
    rw [List.map_map]
    rfl
  rw [targets_eq h.linked] at hd
  rw [← hbodies]
  rcases List.mem_cons.1 hd with rfl | hd
  · have hpage := inline_overviewPage h ht ⟨0, ⟨l.overviewFile⟩, true⟩ artifacts hinfo
    rw [render, if_pos rfl, OverviewPage.render_eq]
    exact readsAs_unlines (fun b hb => (hpage.plain_before b hb).prose)
      (fun b hb => (hpage.plain_after b hb).prose) hentries
  · obtain ⟨i, hi, rfl⟩ := List.mem_map.1 hd
    have hlt : i < t.size := (ModuleTree.mem_documentedIds.1 hi).1
    have hpage := inline_modulePage h hs ht hlt ha
    have hfile : ∀ c ∈ (l.modulePage t (l.page t i) artifacts).classes, OneLine c.file :=
      List.forall_mem_map.2 fun c hc =>
        Path.oneLine_fileName (hfiles c ((h.mem_get_classes hlt).1 hc).1)
    have hcontent : (l.render t (l.page t i) artifacts info).content =
        (l.modulePage t (l.page t i) artifacts).render := rfl
    rw [hcontent, ModulePage.render_eq]
    exact readsAs_unlines (fun b hb => (hpage.plain_before b hb).prose)
      (hpage.prose_after hfile) hentries

end Built

/-- From every document of a built tree the diagrams that were put into it are read back, in their
order and unchanged. -/
theorem aggregate_readsAs (l : Layout) (rootPaths : List Path) (files : List SourceFile)
    (classes : List ClassInfo)
    (hinline : (aggregate rootPaths files classes).tree.Inline l.moduleFile)
    (hfiles : ∀ c ∈ classes, OneLine c.file.text) {d : DocumentTarget}
    (hd : d ∈ l.targets (aggregate rootPaths files classes).tree) {artifacts : List Artifact}
    (ha : ∀ a ∈ artifacts, a.Depicts (aggregate rootPaths files classes).tree l.moduleFile)
    {info : OverviewInfo} (hinfo : info.Inline) :
    ReadsAs (l.render (aggregate rootPaths files classes).tree d artifacts info).content
      (artifacts.map (·.diagram)) :=
  readsAs_render (aggregate_built rootPaths files classes) hinline
    (aggregate_spelled rootPaths files classes) hfiles hd ha hinfo

def classInFence : ClassInfo := ⟨"A", ⟨"/r/\x60\x60\x60mermaid/a.py"⟩, 1, 0, 1, 1⟩

theorem readsAs_classInFence :
    let t := (aggregate [⟨"/r"⟩] [] [classInFence]).tree
    let l : Layout := ⟨"index.md", "README.md"⟩
    let d : DocumentTarget := ⟨t.root.id, ⟨"index.md"⟩, true⟩
    let artifacts := [DiagramKind.classGraph, .componentTree].map fun kind =>
      kind.generate (l.model t) d.scope .down d.path
    let info : OverviewInfo := ⟨"\x60\x60\x60mermaid", [⟨"/r"⟩], ["python"], 2, 1,
      [⟨⟨"/r/b.py"⟩, none, .read, "\x60\x60\x60"⟩]⟩
    t.Inline l.moduleFile ∧ (∀ c ∈ [classInFence], OneLine c.file.text) ∧ d ∈ l.targets t ∧
      (∀ a ∈ artifacts, a.Depicts t l.moduleFile) ∧ info.Inline ∧
      ReadsAs (l.render t d artifacts info).content (artifacts.map (·.diagram)) := by
  intro t l d artifacts info
  have hinline : t.Inline l.moduleFile :=
    inline_of_built (aggregate_built _ _ _) (by decide) (by decide +kernel) (by decide)
  have hfiles : ∀ c ∈ [classInFence], OneLine c.file.text := by decide
  have hd : d ∈ l.targets t := List.mem_cons_self
  have ha : ∀ a ∈ artifacts, a.Depicts t l.moduleFile :=
    List.forall_mem_map.2 fun kind _ => ⟨.empty, kind, d.scope, .down, d.path, rfl⟩
  have hinfo : info.Inline := ⟨by decide, by decide, by decide, by decide⟩
  exact ⟨hinline, hfiles, hd, ha, hinfo, aggregate_readsAs l _ _ _ hinline hfiles hd ha hinfo⟩

end Layout
end CodeAtlas
