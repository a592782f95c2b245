import CodeAtlas.Proofs.Discovery.Sorting
import CodeAtlas.Proofs.Files.WalkDepth
import CodeAtlas.Proofs.Outcomes

/-!
# Which files are found

Where links are not followed, a walk meets the files below its root on the way to which nothing is
left out. So what is found under directories is told by the files that there are, whatever the order
of the roots.
-/
namespace CodeAtlas

def WalkRule.Keeps (rule : WalkRule) (names : List String) : Prop :=
  ∀ part, part <+: names → part ≠ [] → rule.leavesOut part = false

theorem WalkRule.keeps_concat_iff {rule : WalkRule} {names : List String} {name : String} :
    rule.Keeps (names ++ [name]) ↔
      rule.Keeps names ∧ rule.leavesOut (names ++ [name]) = false := by
  constructor
  · refine fun h => ⟨fun part hpart => h part (hpart.trans (List.prefix_append _ _)), ?_⟩
    exact h _ (List.prefix_refl _) (by simp)
  · rintro ⟨h, hlast⟩ part hpart hne
    rcases List.prefix_concat_iff.1 hpart with rfl | hpart
    · exact hlast
    · exact h part hpart hne

namespace FileTree

section Unfollowed
variable {t : FileTree} {rule : WalkRule} {root : Location} {here : OpenDirectory}
  {above : List OpenDirectory} (hlinks : rule.followLinks = false)
include hlinks

theorem sight_eq_ok_iff_of_not_followLinks {name : String} {l : Location} :
    t.sight rule root here above name = some (.ok l) ↔
      t.IsReal (here.location ++ [name]) ∧ l = here.location ++ [name] := by
  simp [sight_eq_ok_iff, hlinks]

theorem Opens.of_not_followLinks (h : t.Opens rule root here above) :
    here.location = root ++ here.names ∧ rule.Keeps here.names := by
  induction h with
  | start => exact ⟨(List.append_nil root).symm, fun part hpart hne => absurd (by simpa using hpart) hne⟩
  | enter _ hsight hkept _ ih =>
    obtain ⟨-, rfl⟩ := (sight_eq_ok_iff_of_not_followLinks hlinks).1 hsight
    exact ⟨by rw [ih.1, List.append_assoc], WalkRule.keeps_concat_iff.2 ⟨ih.2, hkept⟩⟩

/-- Every directory on the way to which nothing is left out is opened. -/
theorem WellFormed.exists_opens (ht : t.WellFormed) {names : List String}
    (hdir : t.isDirectory (root ++ names) = true) (hkeeps : rule.Keeps names) :
    ∃ above, t.Opens rule root ⟨names, root ++ names⟩ above := by
  induction names using List.reverseRecOn with
  | nil =>
    rw [List.append_nil] at hdir ⊢
    exact ⟨[], .start hdir⟩
  | append_singleton names name ih =>
    obtain ⟨hkeeps, hlast⟩ := WalkRule.keeps_concat_iff.1 hkeeps
    rw [← List.append_assoc] at hdir ⊢
    obtain ⟨above, hopens⟩ := ih (ht.isDirectory_of_find?_concat (isDirectory_iff.1 hdir)) hkeeps
    refine ⟨_, hopens.enter ?_ hlast hdir⟩
    exact (sight_eq_ok_iff_of_not_followLinks hlinks).2 ⟨isReal_of_isDirectory hdir, rfl⟩

/-- A walk from a directory meets the files below it on the way to which nothing is left out. -/
theorem WellFormed.mem_walk_iff_of_not_followLinks (ht : t.WellFormed)
    (hroot : t.isDirectory root = true) {names : List String} :
    .file names ∈ t.walk rule root ↔
      (∃ c, t.find? (root ++ names) = some (.file c)) ∧ rule.Keeps names := by
  rw [mem_walk_iff]
  constructor
  · rintro ⟨l, hmeets⟩
    cases hmeets with
    | root hfile => simp [hroot] at hfile
    | @file here _ name _ hopens hsight hkept hfile =>
      obtain ⟨hlocation, hkeeps⟩ := hopens.of_not_followLinks hlinks
      obtain ⟨⟨e, he, hlink⟩, rfl⟩ := (sight_eq_ok_iff_of_not_followLinks hlinks).1 hsight
      refine ⟨?_, WalkRule.keeps_concat_iff.2 ⟨hkeeps, hkept⟩⟩
      rw [← List.append_assoc, ← hlocation]
      cases e with
      | directory => simp [isDirectory, he] at hfile
      | file c => exact ⟨c, he⟩
      | link q => exact absurd rfl (hlink q)
  · rintro ⟨⟨c, hfile⟩, hkeeps⟩
    cases names using List.reverseRecOn with
    | nil => simp [isDirectory_iff.1 hroot] at hfile
    | append_singleton names name =>
      obtain ⟨hkeeps, hlast⟩ := WalkRule.keeps_concat_iff.1 hkeeps
      rw [← List.append_assoc] at hfile
      obtain ⟨above, hopens⟩ :=
        ht.exists_opens hlinks (ht.isDirectory_of_find?_concat hfile) hkeeps
      have hdir : t.isDirectory (root ++ names ++ [name]) = false := by
        rw [isDirectory, hfile]
        rfl
      refine ⟨_, .file hopens ?_ hlast hdir⟩
      exact (sight_eq_ok_iff_of_not_followLinks hlinks).2 ⟨⟨_, hfile, by simp⟩, rfl⟩

theorem sight_ne_error (name : String) (f : WalkFault) :
    t.sight rule root here above name ≠ some (.error f) := by
  unfold sight
  split <;> simp [hlinks]

theorem fault_not_mem_walkFrom (f : WalkFault) (fuel : Nat) :
    .fault f ∉ t.walkFrom rule root fuel here above := by
  induction fuel generalizing here above with
  | zero => simp [walkFrom]
  | succ fuel ih =>
    rw [walkFrom_succ, List.mem_flatMap]
    rintro ⟨name, -, hmem⟩
    unfold metUnder at hmem
    split at hmem
    · simp at hmem
    next g hsight => exact sight_ne_error hlinks name g hsight
    · split at hmem
      · simp at hmem
      · split at hmem
        · exact ih hmem
        · simp at hmem

theorem filterMap_fault?_walk : (t.walk rule root).filterMap Encounter.fault? = [] := by
  rw [List.filterMap_eq_nil_iff]
  intro x hx
  cases x with
  | file names => rfl
  | fault f =>
    unfold walk at hx
    split at hx
    · exact absurd hx (fault_not_mem_walkFrom hlinks f _)
    · simp at hx

end Unfollowed

theorem rootAt_eq_ok_iff {t : FileTree} {r : Path} {l : Location} :
    t.rootAt r = .ok l ↔ t.resolve r = .ok l := by
  unfold rootAt
  cases t.resolve r <;> simp

theorem isDirectoryAt_iff {t : FileTree} {p : Path} :
    t.isDirectoryAt p = true ↔ ∃ l, t.resolve p = .ok l ∧ t.isDirectory l = true := by
  unfold isDirectoryAt
  cases t.resolve p <;> simp

end FileTree

/-- Whether the names lead from a root to a file that a filter takes as one of the language. -/
structure FileFilter.Chooses (f : FileFilter) (t : FileTree) (root : Location)
    (names : List String) (language : Language) : Prop where
  isFile : ∃ c, t.find? (root ++ names) = some (.file c)
  not_excluded : ∀ part, part <+: names → part ≠ [] →
    ∀ glob ∈ f.exclude, Glob.accepts glob (Path.ofNames part).text = false
  languageOf?_eq : f.languageOf? (Location.path (root ++ names)) = some language
  allowed : f.languages.all (·.contains language) = true
  accepted : Glob.accepts f.pattern (Path.ofNames names).text = true

namespace FileFilter

variable {t : FileTree} {f : FileFilter} {root : Location} {names : List String}
  {language : Language}

theorem takes?_eq_some_iff : f.takes? root names = some language ↔
    f.languageOf? (Location.path (root ++ names)) = some language ∧
      f.languages.all (·.contains language) = true ∧
      Glob.accepts f.pattern (Path.ofNames names).text = true := by
  unfold takes?
  cases f.languageOf? (Location.path (root ++ names)) with
  | none => simp
  | some l =>
    simp only [Option.ite_none_right_eq_some, Bool.and_eq_true, Option.some.injEq]
    constructor
    · rintro ⟨h, rfl⟩
      exact ⟨rfl, h⟩
    · rintro ⟨rfl, h⟩
      exact ⟨h, rfl⟩

theorem keeps_walkRule_iff : f.walkRule.Keeps names ↔ ∀ part, part <+: names → part ≠ [] →
    ∀ glob ∈ f.exclude, Glob.accepts glob (Path.ofNames part).text = false := by
  simp [WalkRule.Keeps, walkRule, excludes]

theorem mem_taken_iff {met : List Encounter} {a : FoundFile} : a ∈ f.taken root met ↔
    ∃ names language, .file names ∈ met ∧ f.takes? root names = some language ∧
      a = ⟨Location.path (root ++ names), Location.path root, language⟩ := by
  unfold taken
  simp only [List.mem_filterMap, Option.map_eq_some_iff]
  constructor
  · rintro ⟨names, ⟨x, hx, hnames⟩, language, htakes, rfl⟩
    cases x with
    | file _ =>
      obtain rfl := Option.some.inj hnames
      exact ⟨_, language, hx, htakes, rfl⟩
    | fault g => simp [Encounter.file?] at hnames
  · rintro ⟨names, language, hmem, htakes, rfl⟩
    exact ⟨names, ⟨_, hmem, rfl⟩, language, htakes, rfl⟩

theorem mem_taken_walk_iff (ht : t.WellFormed) (hlinks : f.followLinks = false)
    (hroot : t.isDirectory root = true) {a : FoundFile} :
    a ∈ f.taken root (t.walk f.walkRule root) ↔ ∃ names language,
      f.Chooses t root names language ∧
        a = ⟨Location.path (root ++ names), Location.path root, language⟩ := by
  have hmet := @FileTree.WellFormed.mem_walk_iff_of_not_followLinks t f.walkRule root hlinks ht hroot
  rw [mem_taken_iff]
  refine exists_congr fun names => exists_congr fun language => ?_
  rw [hmet, keeps_walkRule_iff, takes?_eq_some_iff]
  constructor
  · rintro ⟨⟨hfile, hkept⟩, ⟨hlanguage, hallowed, haccepted⟩, rfl⟩
    exact ⟨⟨hfile, hkept, hlanguage, hallowed, haccepted⟩, rfl⟩
  · rintro ⟨⟨hfile, hkept, hlanguage, hallowed, haccepted⟩, rfl⟩
    exact ⟨⟨hfile, hkept⟩, ⟨hlanguage, hallowed, haccepted⟩, rfl⟩

end FileFilter

theorem exists_places {t : FileTree} {roots : List Path}
    (hroots : ∀ r ∈ roots, t.isDirectoryAt r = true) :
    ∃ places, roots.mapM t.rootAt = .ok places ∧
      (∀ root, root ∈ places ↔ ∃ r ∈ roots, t.resolve r = .ok root) ∧
      ∀ root ∈ places, t.isDirectory root = true := by
  have hresolved : ∀ r ∈ roots, ∃ l, t.rootAt r = .ok l := by
    intro r hr
    obtain ⟨l, hl, -⟩ := FileTree.isDirectoryAt_iff.1 (hroots r hr)
    exact ⟨l, FileTree.rootAt_eq_ok_iff.2 hl⟩
  obtain ⟨places, hplaces⟩ := exists_mapM_eq_ok hresolved
  have hmem : ∀ root, root ∈ places ↔ ∃ r ∈ roots, t.resolve r = .ok root := by
    simpa only [FileTree.rootAt_eq_ok_iff] using fun root => mem_of_mapM_eq_ok hplaces (y := root)
  refine ⟨places, hplaces, hmem, fun root hroot => ?_⟩
  obtain ⟨r, hr, hresolve⟩ := (hmem root).1 hroot
  obtain ⟨l, hl, hdir⟩ := FileTree.isDirectoryAt_iff.1 (hroots r hr)
  rwa [Except.ok.inj (hresolve.symm.trans hl)]

def FileFilter.found (f : FileFilter) (t : FileTree) (places : List Location) : List FoundFile :=
  places.flatMap fun root => f.taken root (t.walk f.walkRule root)

theorem discover_eq {t : FileTree} {f : FileFilter} {roots : List Path} {places : List Location}
    (h : roots.mapM t.rootAt = .ok places) : discover t f roots = .ok {
      files := sortFound (f.found t places)
      warnings := (places.flatMap fun root =>
        (t.walk f.walkRule root).filterMap Encounter.fault?).map WalkFault.warning } := by
  rw [discover, h]
  simp only [FileFilter.found, List.flatMap_map]
  rfl

section Directories
variable {t : FileTree} {f : FileFilter} (ht : t.WellFormed) (hlinks : f.followLinks = false)
include ht hlinks

section Places
variable {places : List Location} (hplaces : ∀ root ∈ places, t.isDirectory root = true)
include hplaces

theorem mem_found_iff {a : FoundFile} : a ∈ f.found t places ↔ ∃ root ∈ places,
    ∃ names language, f.Chooses t root names language ∧
      a = ⟨Location.path (root ++ names), Location.path root, language⟩ := by
  rw [FileFilter.found, List.mem_flatMap]
  refine exists_congr fun root => and_congr_right fun hroot => ?_
  exact FileFilter.mem_taken_walk_iff ht hlinks (hplaces root hroot)

theorem isPlaced_of_mem_found {a : FoundFile} (h : a ∈ f.found t places) : a.IsPlaced := by
  obtain ⟨root, hroot, names, language, hchosen, rfl⟩ := (mem_found_iff ht hlinks hplaces).1 h
  obtain ⟨c, hfile⟩ := hchosen.isFile
  have hdir := FileTree.isDirectory_iff.1 (hplaces root hroot)
  exact ⟨⟨_, ht.isOrdinary_of_find? hfile, rfl⟩, ⟨_, ht.isOrdinary_of_find? hdir, rfl⟩⟩

end Places

/-- What is found under directories is told by the files of the tree: those are found that are
chosen from one of the roots, each once and in order, however the roots are ordered or repeated. -/
theorem discover_exact {roots : List Path} (hroots : ∀ r ∈ roots, t.isDirectoryAt r = true) :
    ∃ d, discover t f roots = .ok d ∧
      (∀ a ∈ d.files, ∃ r ∈ roots, ∃ root names, t.resolve r = .ok root ∧
        f.Chooses t root names a.language ∧ a.path = Location.path (root ++ names) ∧
        a.root = Location.path root) ∧
      (∀ r ∈ roots, ∀ root names language, t.resolve r = .ok root →
        f.Chooses t root names language →
        ∃ a ∈ d.files, a.path = Location.path (root ++ names) ∧ a.language = language) ∧
      d.files.Pairwise (fun a b => a.path.cmp b.path = .lt) ∧
      ∀ roots' : List Path, (∀ r, r ∈ roots' ↔ r ∈ roots) → discover t f roots' = .ok d := by
  obtain ⟨places, hplaces, hmem, hdirs⟩ := exists_places hroots
  have hplaced : ∀ a ∈ f.found t places, a.IsPlaced := fun a =>
    isPlaced_of_mem_found ht hlinks hdirs
  refine ⟨_, discover_eq hplaces, fun a ha => ?_, ?_, pairwise_before_sortFound hplaced, ?_⟩
  · obtain ⟨root, hroot, names, language, hchosen, rfl⟩ :=
      (mem_found_iff ht hlinks hdirs).1 (mem_of_mem_sortFound ha)
    obtain ⟨r, hr, hresolve⟩ := (hmem root).1 hroot
    exact ⟨r, hr, root, names, hresolve, hchosen, rfl, rfl⟩
  · intro r hr root names language hresolve hchosen
    have hfound := (mem_found_iff ht hlinks hdirs).2
      ⟨root, (hmem root).2 ⟨r, hr, hresolve⟩, names, language, hchosen, rfl⟩
    obtain ⟨a, ha, hpath, -⟩ := exists_mem_sortFound hplaced hfound
    refine ⟨a, ha, hpath, ?_⟩
    obtain ⟨_, _, _, _, hchosen', rfl⟩ :=
      (mem_found_iff ht hlinks hdirs).1 (mem_of_mem_sortFound ha)
    have hlanguage := hchosen'.languageOf?_eq
    rw [show Location.path _ = Location.path (root ++ names) from hpath,
      hchosen.languageOf?_eq] at hlanguage
    exact (Option.some.inj hlanguage).symm
  · intro roots' hsame
    obtain ⟨places', hplaces', hmem', -⟩ :=
      exists_places fun r hr => hroots r ((hsame r).1 hr)
    have hplace : ∀ root, root ∈ places' ↔ root ∈ places := by
      intro root
      simp only [hmem, hmem', hsame]
    have hfound : ∀ a, a ∈ f.found t places' ↔ a ∈ f.found t places := by
      intro a
      simp only [FileFilter.found, List.mem_flatMap, hplace]
    have hfaults : ∀ places : List Location,
        (places.flatMap fun root => (t.walk f.walkRule root).filterMap Encounter.fault?) = [] :=
      fun _ => List.flatMap_eq_nil_iff.2 fun _ _ => FileTree.filterMap_fault?_walk hlinks
    rw [discover_eq hplaces', sortFound_congr hplaced hfound, hfaults, hfaults]

end Directories

/-- What lies below `build` is left out below `/s`, and is found below `/s/a`. -/
theorem discover_exact_nested :
    let t : FileTree := {
      entries := [(["s"], .directory), (["s", "a"], .directory),
        (["s", "a", "x.py"], .file (.text "")), (["s", "a", "build"], .directory),
        (["s", "a", "build", "y.py"], .file (.text "class Y: pass\n"))]
      current := [] }
    let f : FileFilter :=
      ⟨[.anyParts], ["a/build".toList.map .literal], some [.python], none, false⟩
    let roots : List Path := [⟨"/s"⟩, ⟨"s/a"⟩, ⟨"/s"⟩]
    t.WellFormed ∧ f.followLinks = false ∧ (∀ r ∈ roots, t.isDirectoryAt r = true) ∧
      ¬ f.Chooses t ["s"] ["a", "build", "y.py"] .python ∧
      ∃ d, discover t f roots = .ok d ∧ discover t f [⟨"s/a"⟩, ⟨"/s"⟩] = .ok d ∧
        d.files.Pairwise (fun a b => a.path.cmp b.path = .lt) ∧
        ∃ a ∈ d.files, a.path = ⟨"/s/a/build/y.py"⟩ ∧ a.language = .python := by
  intro t f roots
  have ht : t.WellFormed := ⟨by decide, by decide +kernel⟩
  have hroots : ∀ r ∈ roots, t.isDirectoryAt r = true := by decide +kernel
  have hexcluded : ¬ f.Chooses t ["s"] ["a", "build", "y.py"] .python := by
    intro h
    have hkept := h.not_excluded ["a", "build"] (by decide) (by decide) _ List.mem_cons_self
    revert hkept
    decide +kernel
  have hchosen : f.Chooses t ["s", "a"] ["build", "y.py"] .python := by
    have hkept : ∀ part ∈ ["build", "y.py"].inits, part ≠ [] →
        ∀ glob ∈ f.exclude, Glob.accepts glob (Path.ofNames part).text = false := by
      decide +kernel
    exact ⟨⟨_, rfl⟩, fun part hpart => hkept part ((List.mem_inits _ _).2 hpart),
      by decide +kernel, by decide, by decide +kernel⟩
  obtain ⟨d, hd, -, hcomplete, hsorted, hsame⟩ := discover_exact (f := f) ht rfl hroots
  refine ⟨ht, rfl, hroots, hexcluded, d, hd, hsame _ (by simp [roots]), hsorted, ?_⟩
  exact hcomplete ⟨"s/a"⟩ (by simp [roots]) _ _ _ (by decide +kernel) hchosen
end CodeAtlas
