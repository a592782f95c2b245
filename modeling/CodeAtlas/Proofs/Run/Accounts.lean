import Mathlib.Algebra.GroupWithZero.Nat
import Mathlib.Algebra.Order.BigOperators.Group.List
import CodeAtlas.Proofs.Diagram.Refinement
import CodeAtlas.Proofs.Discovery.Sorting
import CodeAtlas.Proofs.Document.Pages
import CodeAtlas.Proofs.Module.Totals
import CodeAtlas.Proofs.Run.Rewriting

/-!
# The accounts of a run

What a run says of itself is taken from different values: from the files found, from what came of
each of them, from the module tree and from the documents. These accounts agree, whatever the
analyzers make of the files, and the overview shows the same.
-/
namespace CodeAtlas

def NodeInfo.isClass : NodeInfo → Bool
  | .ofModule .. => false
  | .ofClass .. => true

/-- The agreement of what a run from `t` to `u` says with the survey that it has made. -/
structure Accounts (r : Registry) (t : FileTree) (v : Survey) (summary : RunSummary)
    (u : FileTree) : Prop where
  filesDiscovered_eq : summary.filesDiscovered = v.discovery.files.length
  filesDiscovered_eq_add : summary.filesDiscovered =
    summary.filesAnalyzed + v.discovery.files.countP fun f => !(t.read f.path).isOk
  /-- A file that cannot be read gives one warning and no class. -/
  analysis_eq : ∀ f ∈ v.discovery.files, ∀ e, t.read f.path = .error e →
    (r.report t f).analysis = ⟨[], [.read f.path e.message]⟩
  classes_eq : v.classes = v.discovery.files.flatMap fun f => (r.report t f).analysis.classes
  classesFound_eq : summary.classesFound = v.classes.length
  classCount_root : v.tree.root.stats.classCount = summary.classesFound
  sum_classCount_own :
    (v.tree.nodes.toList.map fun n => n.own.classCount).sum = summary.classesFound
  countP_isClass : ((DiagramModel.build v.tree v.settings.moduleFile .empty).1.nodes.toList.countP
    fun node => node.info.isClass) = summary.classesFound
  /-- The modules are listed once each, in the order of the tree. -/
  modules_eq : v.tree.modules = v.tree.nodes.toList
  documents_eq : summary.documents =
    v.settings.outputDirectory.join ⟨v.settings.overviewFile⟩ ::
      (v.tree.modules.filter ModuleNode.hasContent).map fun n =>
        v.settings.outputDirectory.join (n.documentPath v.settings.moduleFile)
  /-- Each of the paths leads to its document, if they lead to files of their own. -/
  holds : u.KeepsApart summary.documents →
    List.Forall₂ (fun p d => u.Holds p d.content) summary.documents v.documents
  pairwise_files : v.discovery.files.Pairwise fun a b => (a.path.cmp b.path).isLE = true
  warnings_eq : summary.warnings = v.discovery.warnings ++
    (v.discovery.files.flatMap fun f => (r.report t f).analysis.warnings) ++
    v.aggregation.warnings
  kind_discovery : ∀ w ∈ v.discovery.warnings, w.kind = .read
  kind_aggregation : ∀ w ∈ v.aggregation.warnings, w.kind = .conflict
  /-- The overview comes first; its table and its list of warnings tell what the summary tells. -/
  overview : ∃ before between rest, v.documents = ⟨⟨v.settings.overviewFile⟩,
      before ++ Page.row ([toString summary.filesDiscovered, toString summary.filesAnalyzed] ++
        Page.statsCells v.tree.root.stats) ++ between ++
      Page.optionalSection summary.warnings "## Warnings\n\n" (fun w => "- " ++ w.display ++ "\n") ++
      "\n"⟩ :: rest

theorem report_of_error {r : Registry} {t : FileTree} {f : FoundFile} {e : FileFault}
    (h : t.read f.path = .error e) : r.report t f = ⟨none, ⟨[], [.read f.path e.message]⟩⟩ := by
  rw [Registry.report, h]

theorem isSome_source_report (r : Registry) (t : FileTree) (f : FoundFile) :
    (r.report t f).source.isSome = (t.read f.path).isOk := by
  unfold Registry.report
  cases t.read f.path <;> rfl

section Model
variable {roots : List ModuleRoot} {classes : List ClassInfo} {tree : ModuleTree}
  (h : Built roots classes tree)
include h

theorem Built.sum_classCount_own :
    (tree.nodes.toList.map fun n => n.own.classCount).sum = classes.length := by
  have hown : ∀ i ∈ List.range tree.size,
      (tree.get i).own.classCount = (tree.get i).classes.length := fun i hi => by
    rw [h.get_own (List.mem_range.1 hi), Stats.sum_classCount]
  rw [← h.allClasses_perm.length_eq, ModuleTree.allClasses, List.length_flatMap,
    ModuleTree.toList_eq_map, List.map_map, List.map_map]
  exact congrArg List.sum (List.map_congr_left hown)

theorem Built.countP_isClass (moduleFile : String) (ids : IdSupply) :
    ((DiagramModel.build tree moduleFile ids).1.nodes.toList.countP
      fun node => node.info.isClass) = classes.length := by
  have hcount : ∀ nodes : List DiagramNode, (nodes.countP fun node => node.info.isClass) =
      (nodes.map (·.info)).countP NodeInfo.isClass := fun nodes => by
    rw [List.countP_map]
    rfl
  have hmodules : (tree.nodes.toList.map (·.info moduleFile)).countP NodeInfo.isClass = 0 := by
    rw [List.countP_eq_zero]
    rintro _ hinfo
    obtain ⟨n, -, rfl⟩ := List.mem_map.1 hinfo
    exact Bool.false_ne_true
  have hclasses : (tree.nodes.toList.flatMap (·.classInfos moduleFile)).countP NodeInfo.isClass =
      (tree.nodes.toList.flatMap (·.classInfos moduleFile)).length := by
    rw [List.countP_eq_length]
    intro _ hinfo
    obtain ⟨n, -, hinfo⟩ := List.mem_flatMap.1 hinfo
    obtain ⟨c, -, rfl⟩ := List.mem_map.1 hinfo
    rfl
  rw [hcount, DiagramModel.infos_build h.linked, List.countP_append, hmodules, hclasses,
    Nat.zero_add, ← h.allClasses_perm.length_eq, ModuleTree.allClasses, List.length_flatMap,
    List.length_flatMap]
  simp only [ModuleNode.classInfos, List.length_map]

theorem Built.modules_eq : tree.modules = tree.nodes.toList := by
  rw [CodeAtlas.modules_eq h.linked, ModuleTree.toList_eq_map]

end Model

theorem kind_of_mem_discover {t : FileTree} {f : FileFilter} {roots : List Path} {d : Discovery}
    (h : discover t f roots = .ok d) {w : Warning} (hw : w ∈ d.warnings) : w.kind = .read := by
  obtain ⟨places, -, h⟩ := Except.bind_eq_ok_iff.1 h
  obtain rfl := Except.ok.inj h
  obtain ⟨fault, -, rfl⟩ := List.mem_map.1 hw
  rfl

theorem kind_of_mem_aggregate {rootPaths : List Path} {files : List SourceFile}
    {classes : List ClassInfo} {w : Warning}
    (hw : w ∈ (aggregate rootPaths files classes).warnings) : w.kind = .conflict := by
  obtain ⟨slot, -, hslot⟩ := List.mem_filterMap.1 hw
  unfold Slot.conflict? at hslot
  split at hslot
  · obtain rfl := Option.some.inj hslot
    rfl
  · simp at hslot

theorem discover_of_settings {s : Settings} {r : Registry} {t : FileTree} {roots : List Path}
    {d : Discovery} (h : s.discover r t roots = .ok d) :
    ∃ f : FileFilter, discover t f roots = .ok d := by
  obtain ⟨f, -, h⟩ := Except.bind_eq_ok_iff.1 h
  exact ⟨_, h⟩

theorem pairwise_files_of_discover {t : FileTree} {f : FileFilter} {roots : List Path}
    {d : Discovery} (h : discover t f roots = .ok d) :
    d.files.Pairwise fun a b => (a.path.cmp b.path).isLE = true := by
  obtain ⟨places, -, h⟩ := Except.bind_eq_ok_iff.1 h
  obtain rfl := Except.ok.inj h
  exact pairwise_sortFound _

section Survey
variable (s : Settings) (r : Registry) (t : FileTree) (roots : List Path) (d : Discovery)

theorem length_sources_surveyOf :
    (s.surveyOf r t roots d).sources.length = d.files.countP fun f => (t.read f.path).isOk := by
  have hsources : (s.surveyOf r t roots d).sources =
      d.files.filterMap fun f => (r.report t f).source := by
    simp [Survey.sources, Settings.surveyOf, List.filterMap_map]
  rw [hsources, List.length_filterMap_eq_countP]
  simp only [isSome_source_report]

theorem classes_surveyOf : (s.surveyOf r t roots d).classes =
    d.files.flatMap fun f => (r.report t f).analysis.classes := by
  simp [Survey.classes, Settings.surveyOf, List.flatMap_map]

theorem warnings_surveyOf : (s.surveyOf r t roots d).warnings = d.warnings ++
    (d.files.flatMap fun f => (r.report t f).analysis.warnings) ++
      (s.surveyOf r t roots d).aggregation.warnings := by
  simp [Survey.warnings, Settings.surveyOf, List.flatMap_map]

end Survey

theorem append_regroup (a b c d e f g : String) :
    a ++ b ++ c ++ d ++ e ++ f ++ g = a ++ b ++ (c ++ d ++ e) ++ f ++ g := by
  simp only [String.append_assoc]

open Page in
theorem OverviewPage.exists_render (p : OverviewPage) : ∃ before between, p.render =
    before ++ row ([toString p.filesDiscovered, toString p.filesAnalyzed] ++ statsCells p.stats) ++
      between ++ optionalSection p.warnings "## Warnings\n\n" (fun w => "- " ++ w ++ "\n") ++
      "\n" := by
  unfold OverviewPage.render
  rw [append_regroup]
  exact ⟨_, _, rfl⟩

def Survey.overviewPage (v : Survey) : OverviewPage :=
  v.layout.overviewPage v.tree ⟨v.tree.root.id, ⟨v.settings.overviewFile⟩, true⟩
    (v.settings.kinds.map fun k =>
      k.generate (DiagramModel.build v.tree v.settings.moduleFile .empty).1 v.tree.root.id
        v.settings.direction ⟨v.settings.overviewFile⟩) v.info

theorem Survey.exists_documents_eq (v : Survey) :
    ∃ rest, v.documents = ⟨⟨v.settings.overviewFile⟩, v.overviewPage.render⟩ :: rest :=
  ⟨_, rfl⟩

theorem Page.optionalSection_map {α β : Type} (f : α → β) (xs : List α) (heading : String)
    (item : β → String) : Page.optionalSection (xs.map f) heading item =
      Page.optionalSection xs heading fun x => item (f x) := by
  simp [Page.optionalSection, Function.comp_def]

theorem Survey.optionalSection_warnings (v : Survey) :
    Page.optionalSection v.overviewPage.warnings "## Warnings\n\n" (fun w => "- " ++ w ++ "\n") =
      Page.optionalSection v.warnings "## Warnings\n\n" fun w => "- " ++ w.display ++ "\n" :=
  Page.optionalSection_map Warning.display v.warnings _ _

/-- Whatever run succeeds, its accounts agree. -/
theorem run_accounts {s : Settings} {r : Registry} {t u : FileTree} {summary : RunSummary}
    (h : s.RunsTo r t (.ok summary) u) :
    ∃ v, s.survey r t = .ok v ∧ Accounts r t v summary u := by
  obtain ⟨v, written, hv, hwritten, rfl⟩ := runsTo_ok_iff.1 h
  obtain ⟨roots, d, -, -, hd, hsurvey⟩ := survey_eq_ok.1 hv
  obtain ⟨f, hd'⟩ := discover_of_settings hd
  have hdiscovery : v.discovery = d := by rw [hsurvey]; rfl
  have hbuilt : Built (ModuleRoot.ofPaths roots) v.classes v.tree := by
    rw [hsurvey]
    exact aggregate_built _ _ _
  obtain ⟨rfl, -, -, hstands⟩ := writesTo_ok hwritten
  have hpaths : (v.documents.map fun d => v.settings.outputDirectory.join d.path) = v.settings.outputDirectory.join ⟨v.settings.overviewFile⟩ ::
      v.tree.documented.map fun n =>
        v.settings.outputDirectory.join (n.documentPath v.settings.moduleFile) := by
    have hjoined := congrArg (List.map v.settings.outputDirectory.join) v.map_path_documents
    simpa [Function.comp_def] using hjoined
  refine ⟨v, hv, ?_⟩
  exact
    { filesDiscovered_eq := rfl
      filesDiscovered_eq_add := by
        have hsources : v.sources.length = d.files.countP fun f => (t.read f.path).isOk := by
          rw [hsurvey]
          exact length_sources_surveyOf s r t roots d
        rw [hdiscovery]
        show v.discovery.files.length = v.sources.length + _
        rw [hsources, hdiscovery, List.length_eq_countP_add_countP fun f => (t.read f.path).isOk]
        simp
      analysis_eq := fun f _ e he => congrArg FileReport.analysis (report_of_error he)
      classes_eq := by
        rw [hdiscovery, hsurvey]
        exact classes_surveyOf s r t roots d
      classesFound_eq := rfl
      classCount_root := by
        rw [hbuilt.root_stats, Stats.sum_classCount]
        rfl
      sum_classCount_own := hbuilt.sum_classCount_own
      countP_isClass := hbuilt.countP_isClass _ _
      modules_eq := hbuilt.modules_eq
      documents_eq := hpaths
      holds := fun hapart => List.forall₂_map_left_iff.2 <| List.forall₂_same.2 fun d hd =>
        (hstands d hd).holds hd hapart
      pairwise_files := by
        rw [hdiscovery]
        exact pairwise_files_of_discover hd'
      warnings_eq := by
        show v.warnings = _
        rw [hdiscovery, hsurvey]
        exact warnings_surveyOf s r t roots d
      kind_discovery := by
        rw [hdiscovery]
        exact fun _ => kind_of_mem_discover hd'
      kind_aggregation := by
        rw [hsurvey]
        exact fun _ => kind_of_mem_aggregate
      overview := by
        obtain ⟨rest, hdocuments⟩ := v.exists_documents_eq
        obtain ⟨before, between, hrender⟩ := v.overviewPage.exists_render
        rw [hrender, v.optionalSection_warnings] at hdocuments
        exact ⟨before, between, rest, hdocuments⟩ }

/-- A file that is no text is found and not analyzed. -/
theorem run_accounts_binary :
    let t : FileTree := {
      entries := [(["src"], .directory), (["src", "b.py"], .file (.binary [255]))]
      current := [] }
    let marker : Analyzer := ⟨.python, ["py"], fun f => ⟨[⟨"A", f.path, 1, 0, 1, 1⟩], []⟩⟩
    let r := Registry.empty.register marker
    let s : Settings := {
      discovery := { roots := [⟨"/src"⟩], exclude := [] }
      diagrams := { kinds := some [.componentTree] }
      output := { directory := ⟨"/docs"⟩ } }
    ∃ summary u, s.RunsTo r t (.ok summary) u ∧
      (summary.filesDiscovered, summary.filesAnalyzed, summary.classesFound) = (1, 0, 0) ∧
      ∃ v, s.survey r t = .ok v ∧ Accounts r t v summary u := by
  intro t marker r s
  have hcounts : (Filing.perform (s.run r) t).1.toOption.map (fun summary =>
      (summary.filesDiscovered, summary.filesAnalyzed, summary.classesFound)) =
      some (1, 0, 0) := by
    decide +kernel
  have hrun := runsTo_run s r t
  cases houtcome : (Filing.perform (s.run r) t).1 with
  | error e => simp [houtcome, Except.toOption] at hcounts
  | ok summary =>
    rw [houtcome] at hcounts hrun
    exact ⟨summary, _, hrun, Option.some.inj hcounts, run_accounts hrun⟩

end CodeAtlas
