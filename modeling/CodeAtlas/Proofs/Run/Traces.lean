import CodeAtlas.Proofs.Document.Placement
import CodeAtlas.Proofs.Files.Linkless
import CodeAtlas.Proofs.Run.Rewriting

/-!
# What a run changes

Where there are no links, a run makes directories and writes files that have one of the two names
which the settings give to documents, and changes nothing else. Its documents are files of their own
unless a module below the root is named `.`.
-/
namespace CodeAtlas

variable {t u v : FileTree} {dir p : Path} {docs : List Document}
  {names : List String}

/-! ### The last fields of document paths -/

namespace Path

theorem lastFields_of_isName {s : String} (h : IsName s) : (mk s).lastFields = [s.toList] := by
  rw [lastFields, Text.fields_of_not_mem h.2, List.reverse_singleton, List.dropWhile_cons_of_neg]
  simpa using h.1

/-- Whether the last field of a path, but for slashes at the end, is one of the names. -/
def EndsIn (p : Path) (names : List String) : Prop :=
  ∃ name ∈ names, ∃ above, p.lastFields = name.toList :: above

theorem endsIn_of_isName {s : String} (h : IsName s) (hs : s ∈ names) : (mk s).EndsIn names :=
  ⟨s, hs, [], lastFields_of_isName h⟩

theorem exists_fields_join (p q : Path) : ∃ before,
    Text.fields '/' (p.join q).text.toList = before ++ Text.fields '/' q.text.toList := by
  by_cases hq : q.isAbsolute = true
  · exact ⟨[], by rw [join, if_pos hq, List.nil_append]⟩
  · rw [Bool.not_eq_true] at hq
    by_cases hp : p.text = ""
    · exact ⟨[], by simp [join, hq, hp]⟩
    · obtain ⟨s, hjoin, cs, hfields, -⟩ := exists_text_join hp hq
      exact ⟨Text.fields '/' cs, by rw [hjoin, hfields]⟩

theorem EndsIn.join (h : p.EndsIn names) (dir : Path) : (dir.join p).EndsIn names := by
  obtain ⟨name, hname, above, hlast⟩ := h
  obtain ⟨before, hfields⟩ := exists_fields_join dir p
  refine ⟨name, hname, above ++ before.reverse, ?_⟩
  unfold lastFields at hlast ⊢
  rw [hfields, List.reverse_append, List.dropWhile_append, hlast]
  rfl

/-- Without links, bytes go to a file of the name that the path ends in. -/
theorem EndsIn.exists_name (h : p.EndsIn names) (ht : t.Linkless) {n : Nat} {base l : Location}
    (hl : t.target n base p = .ok l) :
    ∃ name ∈ names, IsOrdinary name ∧ l.getLast? = some name := by
  obtain ⟨name, hname, above, hlast⟩ := h
  obtain ⟨name', above', hlast', hordinary, hl⟩ := FileTree.exists_name_of_target ht hl
  rw [hlast] at hlast'
  obtain rfl : name = name' := String.toList_inj.1 (List.cons_eq_cons.1 hlast').1
  exact ⟨name, hname, hordinary, hl⟩

end Path

theorem names_of_survey {s : Settings} {r : Registry} {v : Survey} (hv : s.survey r t = .ok v) :
    IsName v.settings.overviewFile ∧ IsName v.settings.moduleFile ∧
      v.settings.overviewFile ≠ v.settings.moduleFile := by
  obtain ⟨roots, discovery, hcheck, -, -, rfl⟩ := survey_eq_ok.1 hv
  obtain ⟨hoverview, hmodule, hne⟩ :=
    Settings.checkOutput_eq_ok.1 (Settings.check_eq_ok.1 hcheck).2.2
  exact ⟨isName_of_checkFileName hoverview, isName_of_checkFileName hmodule, hne⟩

theorem endsIn_of_mem_documents {v : Survey} (hoverview : IsName v.settings.overviewFile)
    (hmodule : IsName v.settings.moduleFile) {d : Document} (hd : d ∈ v.documents) :
    d.path.EndsIn [v.settings.overviewFile, v.settings.moduleFile] := by
  have hpath := List.mem_map_of_mem (f := Document.path) hd
  rw [v.map_path_documents] at hpath
  rcases List.mem_cons.1 hpath with hpath | hpath
  · rw [hpath]
    exact Path.endsIn_of_isName hoverview List.mem_cons_self
  · obtain ⟨n, -, hpath⟩ := List.mem_map.1 hpath
    rw [← hpath]
    exact (Path.endsIn_of_isName hmodule (by simp)).join n.relativeDir

/-! ### Runs where there are no links -/

structure Fills (names : List String) (t u : FileTree) : Prop extends t.Grows u where
  change : ∀ l, u.find? l ≠ t.find? l →
    u.find? l = some .directory ∨ ∃ name ∈ names, l.getLast? = some name

theorem Fills.trans (h : Fills names t u) (h' : Fills names u v) : Fills names t v where
  toGrows := h.toGrows.trans h'.toGrows
  change l hl := by
    by_cases hlast : v.find? l = u.find? l
    · rw [hlast] at hl ⊢
      exact h.change l hl
    · exact h'.change l hlast

theorem Writing.fills (h : Writing dir docs t u) (ht : t.Linkless)
    (hnames : ∀ d ∈ docs, d.path.EndsIn names) : Fills names t u := by
  induction h with
  | make h => exact ⟨h.toGrows, fun _ hl => .inl (h.find?_eq_directory hl)⟩
  | @put t d l hd hl =>
    refine ⟨FileTree.grows_put_target hl _, fun m hm => ?_⟩
    obtain rfl : m = l := by
      by_contra hne
      exact hm (t.find?_put_of_ne hne _)
    obtain ⟨name, hname, -, hm⟩ := ((hnames d hd).join dir).exists_name ht hl
    exact .inr ⟨name, hname, hm⟩
  | trans h _ ih ih' => exact (ih ht).trans (ih' (h.grows.linkless ht))

/-- Runs that succeed have written the documents of a survey. -/
theorem exists_writing_of_run {s : Settings} {r : Registry} {summary : RunSummary}
    (h : s.RunsTo r t (.ok summary) u) : ∃ v, s.survey r t = .ok v ∧
      Writing v.settings.outputDirectory v.documents t u := by
  obtain ⟨v, written, hv, hwritten, -⟩ := runsTo_ok_iff.1 h
  exact ⟨v, hv, (writesTo_ok hwritten).2.1⟩

theorem fills_of_run {s : Settings} {r : Registry} {summary : RunSummary} (ht : t.Linkless)
    (h : s.RunsTo r t (.ok summary) u) :
    Fills [s.output.overviewFile, s.output.moduleFile] t u := by
  obtain ⟨v, hv, hwriting⟩ := exists_writing_of_run h
  obtain ⟨hoverview, hmodule, -⟩ := names_of_survey hv
  obtain ⟨roots, discovery, -, -, -, rfl⟩ := survey_eq_ok.1 hv
  exact hwriting.fills ht fun d hd => endsIn_of_mem_documents hoverview hmodule hd

/-! ### Documents that are files of their own -/

/-- Whether of the modules with pages only the root may be named `.`. -/
def Settings.NamesModules (s : Settings) (r : Registry) (t : FileTree) : Prop :=
  ∀ v ∈ (s.survey r t).toOption, ∀ i ∈ v.tree.documentedIds, i ≠ 0 → (v.tree.get i).path ≠ "."

instance (s : Settings) (r : Registry) (t : FileTree) : Decidable (s.NamesModules r t) :=
  inferInstanceAs (Decidable (∀ v ∈ (s.survey r t).toOption, ∀ i ∈ v.tree.documentedIds, i ≠ 0 →
    (v.tree.get i).path ≠ "."))

theorem destination_join (ht : t.Linkless) (hp : p.Descends) {l : Location}
    (h : t.destination (dir.join p) = .ok l) :
    l = dir.components.foldl Location.next t.current ++ p.names := by
  rw [FileTree.destination_eq ht h, foldl_next_join dir hp.isAbsolute, foldl_next_names hp]
  rfl

/-- Documents whose places below their directory differ are files of their own. -/
theorem keepsApart_of_nodup (ht : t.Linkless) (hdocs : ∀ d ∈ docs, d.path.Descends)
    (hfiles : ∀ d ∈ docs, ∃ l, t.destination (dir.join d.path) = .ok l)
    (hnodup : (docs.map fun d => d.path.plain).Nodup) :
    t.KeepsApart (docs.map fun d => dir.join d.path) := by
  have hdestination : ∀ d ∈ docs, t.destination (dir.join d.path) =
      .ok (dir.components.foldl Location.next t.current ++ d.path.names) := by
    intro d hd
    obtain ⟨l, hl⟩ := hfiles d hd
    rw [hl, destination_join ht (hdocs d hd) hl]
  have hnames : (docs.map fun d => d.path.names).Nodup := by
    rw [List.map_congr_left fun d hd => (hdocs d hd).plain_eq,
      ← Function.comp_def, ← List.map_map] at hnodup
    exact hnodup.of_map _
  have hapart := hnames.map (f := fun names : List String =>
      (.ok (dir.components.foldl Location.next t.current ++ names) : Except FileFault Location))
    fun _ _ h => List.append_cancel_left (Except.ok.inj h)
  rw [List.map_map] at hapart
  rw [FileTree.KeepsApart, List.map_map]
  exact (List.map_congr_left hdestination).symm ▸ hapart

theorem Survey.map_plain_documents (v : Survey) :
    (v.documents.map fun d => d.path.plain) = v.layout.places v.tree := by
  simp [Survey.documents, Layout.documents, Layout.places, Layout.render, Function.comp_def]

section Survey
variable {s : Settings} {r : Registry} {v : Survey} (hv : s.survey r t = .ok v)
include hv

theorem built_of_survey : Built (ModuleRoot.ofPaths v.roots) v.classes v.tree ∧ Spelled v.tree := by
  obtain ⟨roots, discovery, -, -, -, rfl⟩ := survey_eq_ok.1 hv
  exact ⟨aggregate_built _ _ _, aggregate_spelled _ _ _⟩

/-- Names of documents that could be written are ordinary, that of pages if there is a page. -/
theorem ordinary_of_survey (hu : u.Linkless) (hpages : v.tree.documentedIds ≠ [])
    (hfiles : ∀ q ∈ v.documents.map (·.path), ∃ l, u.destination (dir.join q) = .ok l) :
    v.layout.Ordinary := by
  obtain ⟨hoverview, hmodule, -⟩ := names_of_survey hv
  have hordinary : ∀ name, ∀ q : Path, q.EndsIn [name] →
      (∃ l, u.destination (dir.join q) = .ok l) → IsOrdinary name := by
    rintro name q hq ⟨l, hl⟩
    obtain ⟨_, hmem, hname, -⟩ := (hq.join dir).exists_name hu hl
    rwa [← List.mem_singleton.1 hmem]
  rw [v.map_path_documents] at hfiles
  constructor
  · exact hordinary _ _ (Path.endsIn_of_isName hoverview (List.mem_singleton_self _))
      (hfiles _ List.mem_cons_self)
  · obtain ⟨i, hi⟩ := List.exists_mem_of_ne_nil _ hpages
    have hn : v.tree.get i ∈ v.tree.documented := by
      rw [Layout.documented_eq (built_of_survey hv).1.linked]
      exact List.mem_map_of_mem hi
    exact hordinary _ _ ((Path.endsIn_of_isName hmodule (List.mem_singleton_self _)).join _)
      (hfiles _ (List.mem_cons_of_mem _ (List.mem_map_of_mem hn)))

theorem keepsApart_of_survey (hu : u.Linkless)
    (hfiles : ∀ d ∈ v.documents, ∃ l, u.destination (dir.join d.path) = .ok l)
    (hdots : ∀ i ∈ v.tree.documentedIds, i ≠ 0 → (v.tree.get i).path ≠ ".") :
    u.KeepsApart (v.documents.map fun d => dir.join d.path) := by
  obtain ⟨hbuilt, hspelled⟩ := built_of_survey hv
  by_cases hpages : v.tree.documentedIds = []
  · -- The overview is the only document.
    have hlength : v.documents.length = 1 := by
      rw [Survey.documents, Layout.documents, List.length_map,
        Layout.targets_eq hbuilt.linked, hpages]
      rfl
    obtain ⟨d, hd⟩ := List.length_eq_one_iff.1 hlength
    rw [hd]
    exact List.nodup_singleton _
  · have hpaths : ∀ q ∈ v.documents.map (·.path), ∃ l, u.destination (dir.join q) = .ok l := by
      simpa using hfiles
    have hl := ordinary_of_survey hv hu hpages hpaths
    refine keepsApart_of_nodup hu (fun d hd => ?_) hfiles ?_
    · obtain ⟨target, htarget, rfl⟩ := List.mem_map.1 hd
      exact Layout.path_descends hbuilt.linked hspelled hl htarget
    · rw [v.map_plain_documents]
      exact Layout.nodup_places hbuilt hspelled hl (names_of_survey hv).2.2 hdots

end Survey

theorem keepsApart_of_linkless {s : Settings} {r : Registry} {summary : RunSummary}
    (ht : t.Linkless) (h : s.RunsTo r t (.ok summary) u) (hnames : s.NamesModules r t) :
    u.KeepsApart summary.documents := by
  obtain ⟨v, written, hv, hwritten, rfl⟩ := runsTo_ok_iff.1 h
  obtain ⟨rfl, hwriting, -, hstands⟩ := writesTo_ok hwritten
  have hdots := hnames v (by rw [hv]; rfl)
  refine keepsApart_of_survey hv (hwriting.grows.linkless ht) (fun d hd => ?_) hdots
  obtain ⟨-, l, -, -, hl, -⟩ := hstands d hd
  exact ⟨l, hl⟩

end CodeAtlas
