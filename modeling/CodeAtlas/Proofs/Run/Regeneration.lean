import CodeAtlas.Proofs.Discovery.Unmoved
import CodeAtlas.Proofs.Run.Traces

/-!
# Running again

A run that is made again, with nothing else having touched the files, surveys what the first one has
left. If that is of no account to it, both find the same and write the same.
-/
namespace CodeAtlas

def Settings.fileFilter (s : Settings) (r : Registry) : Except Failure FileFilter := do
  let f ← FileFilter.ofGlobs s.discovery.pattern s.discovery.exclude
  return { f with
    languages := s.discovery.languages
    extensions := some r.extensionMap
    followLinks := s.discovery.followLinks }

/-- Whether what a run has changed is of no account to the walks from its roots. -/
def Settings.Spares (s : Settings) (r : Registry) (t u : FileTree) : Prop :=
  ∀ f, s.fileFilter r = .ok f → ∀ p ∈ s.discovery.roots, ∀ root, t.resolve p = .ok root →
    f.Passes root t u

/-- Whether the names of documents have no extension of a language that a registry can read. -/
def Settings.NamesUnread (s : Settings) (r : Registry) : Prop :=
  ∀ name ∈ [s.output.overviewFile, s.output.moduleFile], ∀ ext,
    (Path.mk name).extension? = some ext → r.extensionMap.lookup (Text.lower ext) = none

variable {s : Settings} {r : Registry} {t u : FileTree} {summary : RunSummary}

theorem settings_discover_eq_ok_iff {roots : List Path} {d : Discovery} :
    s.discover r t roots = .ok d ↔
      ∃ f, s.fileFilter r = .ok f ∧ discover t f roots = .ok d := by
  simp only [Settings.discover, Settings.fileFilter, Except.bind_eq_ok_iff, Except.pure_eq_ok_iff]
  constructor
  · rintro ⟨f, hf, hd⟩
    exact ⟨_, ⟨f, hf, rfl⟩, hd⟩
  · rintro ⟨_, ⟨f, hf, rfl⟩, hd⟩
    exact ⟨f, hf, hd⟩

theorem rootPaths_eq_ok_iff {roots paths : List Path} : t.rootPaths roots = .ok paths ↔
    ∃ places, roots.mapM t.rootAt = .ok places ∧ paths = places.eraseDups.map Location.path := by
  simp only [FileTree.rootPaths, Except.bind_eq_ok_iff, Except.pure_eq_ok_iff,
    eq_comm (a := paths)]

/-- The path of a place means the place. -/
theorem resolve_path_of_resolve (ht : t.WellFormed) {p : Path} {root l : Location}
    (h : t.resolve p = .ok root) (hl : t.resolve root.path = .ok l) : l = root := by
  obtain ⟨hcurrent, hreal⟩ := ht.isReal_of_resolve h
  obtain ⟨hordinary, k, hleads⟩ := ht.namesLead_self hreal
  rw [FileTree.resolve_path (hleads.path hordinary hcurrent)] at hl
  split at hl
  · exact (Except.ok.inj hl).symm
  · simp at hl

/-- A survey of what a run has left is that of what there was. -/
theorem survey_of_grows (ht : t.WellFormed) (h : FileTree.Grows t u) (hspares : s.Spares r t u)
    {v : Survey} (hv : s.survey r t = .ok v) : s.survey r u = .ok v := by
  obtain ⟨paths, d, hcheck, hpaths, hd, rfl⟩ := survey_eq_ok.1 hv
  obtain ⟨places, hplaces, rfl⟩ := rootPaths_eq_ok_iff.1 hpaths
  obtain ⟨f, hf, hfound⟩ := settings_discover_eq_ok_iff.1 hd
  obtain ⟨places', hplaces', -⟩ := Except.bind_eq_ok_iff.1 hfound
  have hpass : ∀ root ∈ places', f.Passes root t u := by
    intro root hroot
    obtain ⟨q, hq, hresolve⟩ := (mem_of_mapM_eq_ok hplaces').1 hroot
    obtain ⟨place, hplace, rfl⟩ := List.mem_map.1 hq
    obtain ⟨p, hp, hpresolve⟩ := (mem_of_mapM_eq_ok hplaces).1 (List.mem_eraseDups.1 hplace)
    rw [FileTree.rootAt_eq_ok_iff] at hresolve hpresolve
    obtain rfl := resolve_path_of_resolve ht hpresolve hresolve
    exact hspares f hf p hp root hpresolve
  have hreports : d.files.map (r.report u) = d.files.map (r.report t) := by
    refine List.map_congr_left fun a ha => ?_
    rw [Registry.report, Registry.report, read_of_mem_discover ht h hplaces' hpass hfound ha]
  refine survey_eq_ok.2 ⟨_, d, hcheck,
    rootPaths_eq_ok_iff.2 ⟨places, rootPlaces_of_grows h hplaces, rfl⟩,
    settings_discover_eq_ok_iff.2 ⟨f, hf, ?_⟩, ?_⟩
  · rw [discover_of_grows ht h hplaces' hpass, hfound]
  · simp only [Settings.surveyOf, hreports]

/-! ### Names that no language has -/

theorem FileTree.Leads.eq_append (ht : t.Linkless) {k : Nat} {l m : Location} {names : List String}
    (h : t.Leads l (names.map .normal) k m) : m = l ++ names := by
  have hnames : ∀ c ∈ names.map Component.normal, c = .current ∨ ∃ s, c = .normal s := by
    simp
  rw [h.eq_foldl ht, foldl_next_names hnames, List.filterMap_map]
  exact congrArg _ (List.filterMap_some)

theorem FileTree.Meets.isDirectory_eq {rule : WalkRule} {root l : Location} {names : List String}
    (h : t.Meets rule root names l) : t.isDirectory l = false := by
  cases h with
  | root hfile => exact hfile
  | file _ _ _ hfile => exact hfile

theorem extension?_path {l : Location} {name : String} (hl : ∀ x ∈ l, IsOrdinary x)
    (hname : l.getLast? = some name) : l.path.extension? = (Path.mk name).extension? := by
  have hordinary : (Path.mk name).components = [.normal name] := hl name (List.mem_of_getLast? hname)
  have hlast : (Component.root :: l.map .normal).getLast? = some (.normal name) := by
    rw [List.getLast?_cons, List.getLast?_map, hname]
    rfl
  have hfile : l.path.fileName? = (Path.mk name).fileName? := by
    rw [Path.fileName?, Path.fileName?, Path.components_path hl, hlast, hordinary]
    rfl
  rw [Path.extension?, Path.extension?, hfile]

/-- A run whose documents have names of no language, on a tree without links, leaves nothing that
would count. -/
theorem spares_of_linkless (ht : t.WellFormed) (hlinks : t.Linkless)
    (h : s.RunsTo r t (.ok summary) u) (hnames : s.NamesUnread r) : s.Spares r t u := by
  intro f hf p hp root hroot
  have hfills := fills_of_run hlinks h
  obtain ⟨v, -, hwriting⟩ := exists_writing_of_run h
  have hu := hwriting.wellFormed ht
  have hlinks' := hfills.toGrows.linkless hlinks
  have hreal := hfills.toGrows.isReal (ht.isReal_of_resolve hroot).2
  refine ⟨fun names l hmeets hchanged => ?_, fun _ _ _ _ _ ⟨q, hq⟩ => absurd hq (hlinks' _ q)⟩
  obtain ⟨⟨hordinary, k, hleads⟩, -⟩ := hu.namesLead_of_meets hreal hmeets
  obtain rfl : l = root ++ names := hleads.eq_append hlinks'
  rcases hfills.change _ hchanged with hdir | ⟨name, hname, hlast⟩
  · have hfile := hmeets.isDirectory_eq
    simp [FileTree.isDirectory_iff.2 hdir] at hfile
  · have hlanguage : f.languageOf? (Location.path (root ++ names)) = none := by
      obtain ⟨f', -, hf⟩ := Except.bind_eq_ok_iff.1 hf
      obtain rfl := Except.ok.inj hf
      rw [FileFilter.languageOf?, extension?_path hordinary hlast]
      exact Option.bind_eq_none_iff.2 (hnames name hname)
    rw [FileFilter.takes?, hlanguage]

/-- Running again finds and writes the same, whatever the order in which documents are written,
unless two of the documents are one file, or something that the first run has changed is taken for a
source or lets a link lead elsewhere. None of it is so without links if documents have the extension
of no source and no module but the root is named `.`. -/
theorem run_again (ht : t.WellFormed) (h : s.RunsTo r t (.ok summary) u)
    (hspares : u.KeepsApart summary.documents ∧ s.Spares r t u ∨
      t.Linkless ∧ s.NamesModules r t ∧ s.NamesUnread r) :
    (∃ w, s.RunsTo r u (.ok summary) w) ∧
      ∀ outcome w, s.RunsTo r u outcome w → outcome = .ok summary ∧ u.Same w := by
  obtain ⟨hapart, hspared⟩ : u.KeepsApart summary.documents ∧ s.Spares r t u :=
    hspares.elim id fun ⟨hlinks, hmodules, hnames⟩ =>
      ⟨keepsApart_of_linkless hlinks h hmodules, spares_of_linkless ht hlinks h hnames⟩
  obtain ⟨v, written, hv, hwritten, rfl⟩ := runsTo_ok_iff.1 h
  have hv' := survey_of_grows ht (writesTo_ok hwritten).2.1.grows hspared hv
  have hagain : ∀ outcome w, s.RunsTo r u outcome w →
      outcome = .ok (v.summary written) ∧ u.Same w := by
    intro outcome w hrun
    rw [Settings.RunsTo, hv'] at hrun
    obtain ⟨written', hwritten', rfl⟩ := hrun
    obtain ⟨rfl, hsame⟩ := writesTo_again hwritten hapart hwritten'
    exact ⟨rfl, hsame⟩
  have hrun := runsTo_run s r u
  rw [(hagain _ _ hrun).1] at hrun
  exact ⟨⟨_, hrun⟩, hagain⟩

/-- The documents of a run may lie next to the sources. -/
theorem run_again_besideSources :
    let t : FileTree := {
      entries := [(["r"], .directory), (["r", "a.py"], .file (.text "class A:\n    pass\n"))]
      current := [] }
    let s : Settings := {
      discovery := { roots := [⟨"/r"⟩] }
      diagrams := { kinds := some [.componentTree] }
      output := { directory := ⟨"/r/docs"⟩ } }
    ∃ summary u, t.WellFormed ∧ s.RunsTo .default t (.ok summary) u ∧
      (t.Linkless ∧ s.NamesModules .default t ∧ s.NamesUnread .default) ∧
      (∃ w, s.RunsTo .default u (.ok summary) w) ∧
      ∀ outcome w, s.RunsTo .default u outcome w → outcome = .ok summary ∧ u.Same w := by
  intro t s
  have ht : t.WellFormed := ⟨by decide, by decide +kernel⟩
  have hlinks : t.Linkless := by
    intro l q hq
    have hentry := FileTree.mem_entries_of_find? hq
      (FileTree.ne_nil_of_find?_ne_directory (t := t) (by simp [hq]))
    simp [t] at hentry
  have hmodules : s.NamesModules .default t := by decide +kernel
  have hnames : s.NamesUnread .default := by
    have hmd : ∀ name ∈ ["overview.md", "module.md"], (Path.mk name).extension? = some "md" := by
      decide +kernel
    intro name hname ext hext
    obtain rfl := Option.some.inj ((hmd name hname).symm.trans hext)
    decide +kernel
  obtain ⟨summary, hrun⟩ := exists_runsTo_of_isOk s .default t (by decide +kernel)
  exact ⟨summary, _, ht, hrun, ⟨hlinks, hmodules, hnames⟩,
    run_again ht hrun (.inr ⟨hlinks, hmodules, hnames⟩)⟩

/-- If a run cannot but leave what the first one has left, documents that are one file have one
content. -/
theorem content_eq_of_run_again (ht : t.WellFormed) (h : s.RunsTo r t (.ok summary) u)
    (hspares : s.Spares r t u) (hagain : ∀ outcome w, s.RunsTo r u outcome w → u.Same w)
    {v : Survey} (hv : s.survey r t = .ok v) {d e : Document} (hd : d ∈ v.documents)
    (he : e ∈ v.documents)
    (hsame : u.destination (v.settings.outputDirectory.join d.path) =
      u.destination (v.settings.outputDirectory.join e.path)) : d.content = e.content := by
  obtain ⟨_, written, hv', hwritten, -⟩ := runsTo_ok_iff.1 h
  obtain rfl := Except.ok.inj (hv.symm.trans hv')
  have hu := survey_of_grows ht (writesTo_ok hwritten).2.1.grows hspares hv
  have hholds : ∀ d ∈ v.documents,
      u.Holds (v.settings.outputDirectory.join d.path) d.content := by
    intro d hd
    obtain ⟨w, hw, hlast⟩ := exists_writesTo_holds hwritten hd
    exact (hagain _ w (runsTo_ok_iff.2 ⟨v, written, hu, hw, rfl⟩)).holds hlast
  obtain ⟨l, hl, hdfile⟩ := hholds d hd
  obtain ⟨m, hm, hefile⟩ := hholds e he
  obtain rfl : l = m := Except.ok.inj (hl.symm.trans (hsame.trans hm))
  simpa using hdfile.symm.trans hefile

def Survey.counts (v : Survey) : Nat × Nat := (v.discovery.files.length, v.warnings.length)

theorem counts_eq_of_runs {t' u' : FileTree} (h : s.RunsTo r t (.ok summary) u)
    (h' : s.RunsTo r t' (.ok summary) u') :
    (s.survey r t).toOption.map Survey.counts = (s.survey r t').toOption.map Survey.counts := by
  obtain ⟨v, written, hv, -, rfl⟩ := runsTo_ok_iff.1 h
  obtain ⟨v', written', hv', -, hsame⟩ := runsTo_ok_iff.1 h'
  have hfiles : v.discovery.files.length = v'.discovery.files.length :=
    congrArg RunSummary.filesDiscovered hsame
  have hwarnings : v.warnings = v'.warnings := congrArg RunSummary.warnings hsame
  simp [hv, hv', Except.toOption, Survey.counts, hfiles, hwarnings]

/-- A document is taken for a source when it has the extension of one, and a link to where documents
are written leads nowhere before the first of them is. -/
theorem not_forall_run_again :
    (¬ ∀ (s : Settings) (t u : FileTree) (summary : RunSummary), t.WellFormed →
      s.check = .ok () → s.discovery.followLinks = false → s.RunsTo .default t (.ok summary) u →
      ∃ w, s.RunsTo .default u (.ok summary) w ∧ u.Same w) ∧
    ¬ ∀ (s : Settings) (t u : FileTree) (summary : RunSummary), t.WellFormed →
      s.check = .ok () → s.output.overviewFile = "overview.md" →
      s.output.moduleFile = "module.md" → s.RunsTo .default t (.ok summary) u →
      ∃ w, s.RunsTo .default u (.ok summary) w ∧ u.Same w := by
  constructor
  · intro h
    let t : FileTree := { entries := [(["r"], .directory)], current := [] }
    let s : Settings := {
      discovery := { roots := [⟨"r"⟩] }
      diagrams := { kinds := some [.componentTree] }
      output := { directory := ⟨"r"⟩, overviewFile := "o.js" } }
    have ht : t.WellFormed := ⟨by decide, by decide +kernel⟩
    obtain ⟨summary, hfirst⟩ := exists_runsTo_of_isOk s .default t (by decide +kernel)
    obtain ⟨w, hsecond, -⟩ := h s t _ summary ht (by decide +kernel) rfl hfirst
    -- What comes of the document as a source does not matter: it is one more file.
    have hfiles := congrArg (Option.map Prod.fst) (counts_eq_of_runs hfirst hsecond)
    revert hfiles
    decide +kernel
  · intro h
    let t : FileTree := {
      entries := [(["r"], .directory), (["r", "l"], .link ⟨"../docs"⟩)]
      current := [] }
    let s : Settings := {
      discovery := { roots := [⟨"r"⟩], followLinks := true }
      diagrams := { kinds := some [.componentTree] }
      output := { directory := ⟨"docs"⟩ } }
    have ht : t.WellFormed := ⟨by decide, by decide +kernel⟩
    obtain ⟨summary, hfirst⟩ := exists_runsTo_of_isOk s .default t (by decide +kernel)
    obtain ⟨w, hsecond, -⟩ := h s t _ summary ht (by decide +kernel) rfl rfl hfirst
    have hcounts := counts_eq_of_runs hfirst hsecond
    revert hcounts
    decide +kernel

end CodeAtlas
