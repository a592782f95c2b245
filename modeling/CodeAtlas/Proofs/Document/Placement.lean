import CodeAtlas.Proofs.Document.Links
import CodeAtlas.Proofs.Settings.Checked

/-!
# Laying out the documents

The names of directories come from the sources and those of documents from the settings, and the two
are never held against each other. The documents get different paths, none below another, unless a
directory has the name of a document or is named `.`.
-/
namespace CodeAtlas

theorem map_normal_inj {xs ys : List String}
    (h : xs.map Component.normal = ys.map Component.normal) : xs = ys :=
  (List.map_inj_right fun _ _ => Component.normal.inj).1 h

theorem map_normal_isPrefix_iff {xs ys : List String} :
    xs.map Component.normal <+: ys.map Component.normal ↔ xs <+: ys := by
  constructor
  · rintro ⟨rest, hrest⟩
    obtain ⟨zs, ws, rfl, hzs, -⟩ := List.map_eq_append_iff.1 hrest.symm
    rw [map_normal_inj hzs]
    exact List.prefix_append xs ws
  · exact fun h => h.map _

namespace Layout

/-- Where the documents of a tree stand, seen from the output directory. -/
def places (l : Layout) (t : ModuleTree) : List (List Component) :=
  (l.targets t).map fun d => d.path.plain

structure Placed (l : Layout) (t : ModuleTree) : Prop where
  /-- Each document is a file in the directory or in one below it. -/
  plain : ∀ place ∈ l.places t, ∃ (dirs : List String) (file : String),
    (∀ s ∈ dirs, IsOrdinary s) ∧ IsOrdinary file ∧ place = dirs.map .normal ++ [.normal file]
  /-- Documents are files of their own, if no module but the root is named `.`. -/
  nodup : (∀ i ∈ t.documentedIds, i ≠ 0 → (t.get i).path ≠ ".") → (l.places t).Nodup
  /-- No document stands where another one needs a directory. -/
  prefixFree_iff : (∀ p ∈ l.places t, ∀ q ∈ l.places t, p <+: q → p = q) ↔
    (∀ i ∈ t.documentedIds, (t.get i).relativeDir.names.head? ≠ some l.overviewFile) ∧
      ∀ i ∈ t.documentedIds, i ≠ 0 → (t.get i).name ≠ l.moduleFile

def placeNames (l : Layout) (t : ModuleTree) : List (List String) :=
  [l.overviewFile] :: t.documentedIds.map fun i => (t.get i).relativeDir.names ++ [l.moduleFile]

section Built
variable {roots : List ModuleRoot} {classes : List ClassInfo} {t : ModuleTree} {l : Layout}
  (h : Built roots classes t) (hs : Spelled t)
include h hs

omit h in
theorem names_relativeDir {i : Nat} (hi : i < t.size) :
    (t.get i).relativeDir.names = (t.get i).pathNames.filter (· ≠ ".") :=
  (hs.hasNames hi).isModulePath.names_relativeDir

theorem root_relativeDir_isPrefix {i : Nat} (hi : i < t.size) :
    (t.get 0).relativeDir.names <+: (t.get i).relativeDir.names := by
  rw [names_relativeDir hs h.linked.length_pos, names_relativeDir hs hi]
  exact (hs.root_isPrefix h hi).filter _

omit h in
/-- A child's directory has the child's name for its last, but for a child that is named `.`. -/
theorem relativeDir_child {i p : Nat} (hi : i < t.size) (hp : p < t.size)
    (hparent : (t.get i).parent = some p) :
    ((t.get i).name = "." ∧ (t.get i).relativeDir.names = []) ∨
      (t.get i).relativeDir.names = (t.get p).relativeDir.names ++ [(t.get i).name] := by
  have hchild := hs.pathNames_child hi hparent
  rw [names_relativeDir hs hi, names_relativeDir hs hp, hchild]
  by_cases hdot : (t.get i).name = "."
  · left
    have htail := (hs.hasNames hi).isModulePath.dot_not_mem_tail
    rw [hchild, hdot] at htail
    cases hnames : (t.get p).pathNames with
    | nil => exact ⟨hdot, by simp [hdot]⟩
    | cons first rest => simp [hnames] at htail
  · right
    rw [List.filter_append]
    simp [hdot]

theorem path_eq_dot_iff {i : Nat} (hi : i < t.size) (hne : i ≠ 0) :
    (t.get i).path = "." ↔ (t.get i).relativeDir.names = [] := by
  obtain ⟨p, hp, hparent, -⟩ := h.linked.exists_parent hi hne
  have hnames := hs.hasNames hi
  have hchild := hs.pathNames_child hi hparent
  constructor
  · intro hdot
    rw [names_relativeDir hs hi, ModuleNode.pathNames, hdot]
    decide
  · intro hnil
    rw [names_relativeDir hs hi, List.filter_eq_nil_iff] at hnil
    have hdots : ∀ s ∈ (t.get i).pathNames, s = "." := fun s hs => by simpa using hnil s hs
    have htail := hnames.isModulePath.dot_not_mem_tail
    cases hcases : (t.get i).pathNames with
    | nil => simp [hcases] at hchild
    | cons first rest =>
      rw [hcases] at hdots htail
      cases rest with
      | nil => rw [hnames.path_eq, hcases, hdots first List.mem_cons_self, String.intercalate_singleton]
      | cons second rest =>
        have hsecond := hdots second (by simp)
        simp [hsecond] at htail

/-- How the directory of a page follows from that of the page above. -/
theorem exists_parent_relativeDir {i : Nat} (hi : i ∈ t.documentedIds) (hne : i ≠ 0) :
    ∃ p < i, p ∈ t.documentedIds ∧ (t.get i).parent = some p ∧
      (((t.get i).name = "." ∧ (t.get i).relativeDir.names = []) ∨
        (t.get i).relativeDir.names = (t.get p).relativeDir.names ++ [(t.get i).name]) := by
  obtain ⟨p, hp, hdoc, hparent⟩ := exists_documented_parent h hi hne
  have hlt := (ModuleTree.mem_documentedIds.1 hi).1
  exact ⟨p, hp, hdoc, hparent, relativeDir_child hs hlt (hp.trans hlt) hparent⟩

/-- The directories above that of a page, up to the root's, have pages too. -/
theorem exists_documented_of_isPrefix {i : Nat} (hi : i ∈ t.documentedIds) {names : List String}
    (hnames : names <+: (t.get i).relativeDir.names)
    (hroot : (t.get 0).relativeDir.names.length ≤ names.length) :
    ∃ k ∈ t.documentedIds, (t.get k).relativeDir.names = names := by
  induction i using Nat.strong_induction_on with
  | h i ih =>
    by_cases hsame : names = (t.get i).relativeDir.names
    · exact ⟨i, hi, hsame.symm⟩
    have hzero : i ≠ 0 := by
      rintro rfl
      exact hsame (hnames.eq_of_length_le hroot)
    obtain ⟨p, hp, hdoc, -, hdir⟩ := exists_parent_relativeDir h hs hi hzero
    apply ih p hp hdoc
    rcases hdir with ⟨-, hnil⟩ | hchild
    · rw [hnil, List.prefix_nil] at hnames
      exact absurd (hnames.trans hnil.symm) hsame
    · rw [hchild] at hnames hsame
      exact (List.prefix_concat_iff.1 hnames).resolve_left hsame

theorem length_root_relativeDir_lt {i : Nat} (hi : i ∈ t.documentedIds) (hne : i ≠ 0)
    (hdot : (t.get i).relativeDir.names ≠ []) :
    (t.get 0).relativeDir.names.length < (t.get i).relativeDir.names.length := by
  obtain ⟨p, -, hdoc, -, hdir⟩ := exists_parent_relativeDir h hs hi hne
  have hchild := hdir.resolve_left fun hnil => hdot hnil.2
  have hroot := (root_relativeDir_isPrefix h hs (ModuleTree.mem_documentedIds.1 hdoc).1).length_le
  rw [hchild, List.length_append, List.length_singleton]
  omega

/-- Where no module but the root is named `.`, the pages are in different directories. -/
theorem relativeDir_inj
    (hdots : ∀ i ∈ t.documentedIds, i ≠ 0 → (t.get i).relativeDir.names ≠ []) {i j : Nat}
    (hi : i ∈ t.documentedIds) (hj : j ∈ t.documentedIds)
    (he : (t.get i).relativeDir.names = (t.get j).relativeDir.names) : i = j := by
  -- Two directories with the same last name hang from directories that are the same.
  induction i using Nat.strong_induction_on generalizing j with
  | h i ih =>
    by_cases hi0 : i = 0
    · by_contra hne
      have hlt := length_root_relativeDir_lt h hs hj (by omega) (hdots j hj (by omega))
      rw [← he, hi0] at hlt
      exact absurd hlt (Nat.lt_irrefl _)
    by_cases hj0 : j = 0
    · have hlt := length_root_relativeDir_lt h hs hi hi0 (hdots i hi hi0)
      rw [he, hj0] at hlt
      exact absurd hlt (Nat.lt_irrefl _)
    obtain ⟨p, hp, hpdoc, hip, hidir⟩ := exists_parent_relativeDir h hs hi hi0
    obtain ⟨q, -, hqdoc, hjq, hjdir⟩ := exists_parent_relativeDir h hs hj hj0
    rw [hidir.resolve_left fun hnil => hdots i hi hi0 hnil.2,
      hjdir.resolve_left fun hnil => hdots j hj hj0 hnil.2] at he
    obtain ⟨hparents, hnames⟩ := List.append_inj' he rfl
    obtain rfl := ih p hp hpdoc hqdoc hparents
    have hilt := (ModuleTree.mem_documentedIds.1 hi).1
    have hjlt := (ModuleTree.mem_documentedIds.1 hj).1
    apply hs.pathNames_inj h hilt hjlt
    rw [hs.pathNames_child hilt hip, hs.pathNames_child hjlt hjq, hnames]

section Ordinary
variable (hl : l.Ordinary)
include hl

omit h in
theorem names_page {i : Nat} (hi : i < t.size) :
    (l.page t i).path.names = (t.get i).relativeDir.names ++ [l.moduleFile] := by
  have hnames := (hs.hasNames hi).isModulePath
  have hfile : (Path.mk l.moduleFile).components = [.normal l.moduleFile] := hl.moduleFile
  rw [page, Path.names, hnames.components_documentPath hl.moduleFile.isTail, hfile,
    List.filterMap_append, Path.names, ModuleNode.relativeDir, hnames.components]
  rfl

theorem places_eq : l.places t = (l.placeNames t).map (List.map .normal) := by
  have hplain : ∀ d ∈ l.targets t, d.path.plain = d.path.names.map .normal := fun d hd =>
    (path_descends h.linked hs hl hd).plain_eq
  have hoverview : (Path.mk l.overviewFile).names = [l.overviewFile] :=
    Path.names_eq hl.overviewFile
  have hpages : ∀ i ∈ t.documentedIds, (l.page t i).path.names =
      (t.get i).relativeDir.names ++ [l.moduleFile] := fun i hi =>
    names_page hs hl (ModuleTree.mem_documentedIds.1 hi).1
  rw [places, placeNames, List.map_congr_left hplain, targets_eq h.linked, List.map_cons,
    List.map_map, List.map_cons, List.map_map, hoverview]
  refine congrArg _ (List.map_congr_left fun i hi => ?_)
  rw [Function.comp_apply, Function.comp_apply, hpages i hi]

theorem plain_of_mem_places {place : List Component} (hplace : place ∈ l.places t) :
    ∃ (dirs : List String) (file : String), (∀ s ∈ dirs, IsOrdinary s) ∧ IsOrdinary file ∧
      place = dirs.map .normal ++ [.normal file] := by
  rw [places_eq h hs hl] at hplace
  obtain ⟨names, hnames, rfl⟩ := List.mem_map.1 hplace
  rcases List.mem_cons.1 hnames with rfl | hnames
  · exact ⟨[], l.overviewFile, by simp, hl.overviewFile, rfl⟩
  · obtain ⟨i, -, rfl⟩ := List.mem_map.1 hnames
    exact ⟨(t.get i).relativeDir.names, l.moduleFile, fun _ => Path.isOrdinary_of_mem_names,
      hl.moduleFile, by simp⟩

variable (hne : l.overviewFile ≠ l.moduleFile)
include hne

theorem nodup_places (hdots : ∀ i ∈ t.documentedIds, i ≠ 0 → (t.get i).path ≠ ".") :
    (l.places t).Nodup := by
  have hoverview : [l.overviewFile] ∉
      t.documentedIds.map fun i => (t.get i).relativeDir.names ++ [l.moduleFile] := by
    intro hmem
    obtain ⟨i, -, hi⟩ := List.mem_map.1 hmem
    have hfiles : [l.moduleFile] = [l.overviewFile] :=
      (List.append_inj' (hi.trans (List.nil_append _).symm) rfl).2
    exact hne (List.singleton_inj.1 hfiles).symm
  have hnodup : t.documentedIds.Nodup := List.nodup_range.filter _
  rw [places_eq h hs hl, placeNames, List.nodup_map_iff fun _ _ => map_normal_inj, List.nodup_cons,
    and_iff_right hoverview, List.nodup_map_iff_inj_on hnodup]
  intro i hi j hj he
  apply relativeDir_inj h hs _ hi hj (List.append_cancel_right he)
  intro k hk hzero hnil
  have hlt := (ModuleTree.mem_documentedIds.1 hk).1
  exact hdots k hk hzero ((path_eq_dot_iff h hs hlt hzero).2 hnil)

omit hne in
/-- A page stands where another page has a directory just when a module is named as pages are. -/
theorem exists_page_isPrefix_iff : (∃ i ∈ t.documentedIds, ∃ j ∈ t.documentedIds,
      (t.get i).relativeDir.names ++ [l.moduleFile] <+: (t.get j).relativeDir.names) ↔
    ∃ k ∈ t.documentedIds, k ≠ 0 ∧ (t.get k).name = l.moduleFile := by
  constructor
  · rintro ⟨i, hi, j, hj, hpre⟩
    have hroot := (root_relativeDir_isPrefix h hs (ModuleTree.mem_documentedIds.1 hi).1).length_le
    obtain ⟨k, hk, hnames⟩ := exists_documented_of_isPrefix h hs hj hpre
      (hroot.trans (List.prefix_append _ _).length_le)
    have hzero : k ≠ 0 := by
      rintro rfl
      rw [hnames, List.length_append, List.length_singleton] at hroot
      omega
    obtain ⟨p, -, -, -, hdir⟩ := exists_parent_relativeDir h hs hk hzero
    refine ⟨k, hk, hzero, ?_⟩
    rcases hdir with ⟨-, hnil⟩ | hchild
    · simp [hnil] at hnames
    · exact List.singleton_inj.1 (List.append_inj' (hchild.symm.trans hnames) rfl).2
  · rintro ⟨k, hk, hzero, hname⟩
    obtain ⟨p, -, hdoc, -, hdir⟩ := exists_parent_relativeDir h hs hk hzero
    have hdot : (t.get k).name ≠ "." := hname ▸ (isOrdinary_iff_ne.1 hl.moduleFile).2.1
    have hchild := hdir.resolve_left fun hnil => hdot hnil.1
    rw [hname] at hchild
    exact ⟨p, hdoc, k, hk, hchild ▸ List.prefix_rfl⟩

theorem prefixFree_places_iff : (∀ p ∈ l.places t, ∀ q ∈ l.places t, p <+: q → p = q) ↔
    (∀ i ∈ t.documentedIds, (t.get i).relativeDir.names.head? ≠ some l.overviewFile) ∧
      ∀ i ∈ t.documentedIds, i ≠ 0 → (t.get i).name ≠ l.moduleFile := by
  have hnames : (∀ p ∈ l.places t, ∀ q ∈ l.places t, p <+: q → p = q) ↔
      ∀ xs ∈ l.placeNames t, ∀ ys ∈ l.placeNames t, xs <+: ys → xs = ys := by
    simp only [places_eq h hs hl, List.forall_mem_map, map_normal_isPrefix_iff]
    refine forall₄_congr fun xs _ ys _ => ?_
    exact imp_congr_right fun _ => ⟨map_normal_inj, congrArg _⟩
  have hpage : ∀ i ∈ t.documentedIds,
      (t.get i).relativeDir.names ++ [l.moduleFile] ∈ l.placeNames t := fun i hi =>
    List.mem_cons_of_mem _ (List.mem_map_of_mem hi)
  rw [hnames]
  constructor
  · intro hfree
    refine ⟨fun i hi hhead => ?_, fun k hk hzero hname => ?_⟩
    · have hpre := List.singleton_prefix_iff_head?_eq_some.2 hhead
      have he := hfree _ List.mem_cons_self _ (hpage i hi) (hpre.trans (List.prefix_append _ _))
      have hlength := congrArg List.length he
      rw [List.length_append, List.length_singleton, List.length_singleton] at hlength
      exact absurd hpre.length_le (by rw [List.length_singleton]; omega)
    · obtain ⟨i, hi, j, hj, hpre⟩ := (exists_page_isPrefix_iff h hs hl).2 ⟨k, hk, hzero, hname⟩
      have he := hfree _ (hpage i hi) _ (hpage j hj) (hpre.trans (List.prefix_append _ _))
      have hlength := hpre.length_le
      rw [List.append_cancel_right he, List.length_append, List.length_singleton] at hlength
      omega
  · rintro ⟨hhead, hname⟩ xs hxs ys hys hpre
    rcases List.mem_cons.1 hxs with rfl | hxs <;> rcases List.mem_cons.1 hys with rfl | hys
    · rfl
    · obtain ⟨j, hj, rfl⟩ := List.mem_map.1 hys
      rw [List.singleton_prefix_iff_head?_eq_some] at hpre
      cases hdirs : (t.get j).relativeDir.names with
      | nil => exact absurd (by simpa [hdirs] using hpre) hne.symm
      | cons first rest =>
        apply absurd _ (hhead j hj)
        rw [hdirs] at hpre ⊢
        exact hpre
    · obtain ⟨i, -, rfl⟩ := List.mem_map.1 hxs
      exact hpre.eq_of_length_le (by simp)
    · obtain ⟨i, hi, rfl⟩ := List.mem_map.1 hxs
      obtain ⟨j, hj, rfl⟩ := List.mem_map.1 hys
      rcases List.prefix_concat_iff.1 hpre with he | hbelow
      · exact he
      · obtain ⟨k, hk, hzero, he⟩ := (exists_page_isPrefix_iff h hs hl).1 ⟨i, hi, j, hj, hbelow⟩
        exact absurd he (hname k hk hzero)

theorem placed : l.Placed t where
  plain := fun _ hplace => plain_of_mem_places h hs hl hplace
  nodup := nodup_places h hs hl hne
  prefixFree_iff := prefixFree_places_iff h hs hl hne

end Ordinary
end Built

/-- Documents with checked names other than `.` and `..` get in each other's way only through the
names of directories. -/
theorem aggregate_placed {s : Settings} (hs : s.check = .ok ())
    (hoverview : s.output.overviewFile ∉ [".", ".."]) (hmodule : s.output.moduleFile ∉ [".", ".."])
    (rootPaths : List Path) (files : List SourceFile) (classes : List ClassInfo) :
    (Layout.mk s.output.overviewFile s.output.moduleFile).Placed
      (aggregate rootPaths files classes).tree := by
  obtain ⟨-, -, houtput⟩ := Settings.check_eq_ok.1 hs
  obtain ⟨hoverview', hmodule', hne⟩ := Settings.checkOutput_eq_ok.1 houtput
  exact placed (aggregate_built rootPaths files classes) (aggregate_spelled rootPaths files classes)
    ⟨isOrdinary_of_checkFileName hoverview' hoverview, isOrdinary_of_checkFileName hmodule' hmodule⟩
    hne

theorem placed_defaults :
    (Settings.mk {} {} {}).check = .ok () ∧ "overview.md" ∉ [".", ".."] ∧
      "module.md" ∉ [".", ".."] ∧ (Layout.mk "overview.md" "module.md").Placed
        (aggregate [⟨"/src/lib"⟩, ⟨"/app"⟩] []
          [⟨"A", ⟨"/src/lib/net/a.py"⟩, 3, 1, 1, 4⟩, ⟨"B", ⟨"/app/b.py"⟩, 2, 0, 1, 2⟩]).tree := by
  have hcheck : (Settings.mk {} {} {}).check = .ok () := by decide +kernel
  have hoverview : "overview.md" ∉ [".", ".."] := by decide
  have hmodule : "module.md" ∉ [".", ".."] := by decide
  exact ⟨hcheck, hoverview, hmodule, aggregate_placed hcheck hoverview hmodule _ _ _⟩

/-- Checked settings may still name the overview like a directory or like the directory above, and a
root may be named `.`. -/
theorem not_forall_check_places :
    (¬ ∀ (s : Settings) (rootPaths : List Path) (files : List SourceFile) (classes : List ClassInfo),
      s.check = .ok () →
      ∀ p ∈ (Layout.mk s.output.overviewFile s.output.moduleFile).places
          (aggregate rootPaths files classes).tree,
        ∀ q ∈ (Layout.mk s.output.overviewFile s.output.moduleFile).places
          (aggregate rootPaths files classes).tree, p <+: q → p = q) ∧
    (¬ ∀ (s : Settings) (rootPaths : List Path) (files : List SourceFile) (classes : List ClassInfo),
      s.check = .ok () → ((Layout.mk s.output.overviewFile s.output.moduleFile).places
        (aggregate rootPaths files classes).tree).Nodup) ∧
    ∀ name ∈ [".", ".."],
      ¬ ∀ (s : Settings) (rootPaths : List Path) (files : List SourceFile) (classes : List ClassInfo),
        s.check = .ok () → s.output.overviewFile = name →
        ∀ place ∈ (Layout.mk s.output.overviewFile s.output.moduleFile).places
            (aggregate rootPaths files classes).tree,
          ∃ (dirs : List String) (file : String), place = dirs.map .normal ++ [.normal file] := by
  refine ⟨fun h => ?_, fun h => ?_, fun name hname h => ?_⟩
  · have hfree := h ⟨{}, {}, { overviewFile := "pkg" }⟩ [⟨"/src/pkg"⟩] []
      [⟨"A", ⟨"/src/pkg/a.py"⟩, 1, 0, 1, 1⟩] (by decide +kernel)
    have hb := aggregate_built [⟨"/src/pkg"⟩] [] [⟨"A", ⟨"/src/pkg/a.py"⟩, 1, 0, 1, 1⟩]
    have hpage := hb.mem_documentedIds (by simp) hb.linked.length_pos
    rw [prefixFree_places_iff hb (aggregate_spelled _ _ _) ⟨by decide, by decide⟩ (by decide)]
      at hfree
    exact hfree.1 0 hpage (by decide +kernel)
  · have hnodup := h ⟨{}, {}, {}⟩ [⟨"/"⟩, ⟨"/lib"⟩] [] [⟨"A", ⟨"/a.py"⟩, 1, 0, 1, 1⟩]
      (by decide +kernel)
    have hb := aggregate_built [⟨"/"⟩, ⟨"/lib"⟩] [] [⟨"A", ⟨"/a.py"⟩, 1, 0, 1, 1⟩]
    revert hnodup
    decide +kernel
  · have hcheck : ∀ name ∈ [".", ".."],
        (Settings.mk {} {} { overviewFile := name }).check = .ok () := by decide +kernel
    have hnone : ∀ name ∈ [".", ".."], ∀ c ∈ (Path.mk name).plain, c.normal? = none := by
      decide +kernel
    obtain ⟨dirs, file, hplace⟩ := h _ [] [] [] (hcheck name hname) rfl (Path.mk name).plain
      List.mem_cons_self
    have hfile : Component.normal file ∈ (Path.mk name).plain := by simp [hplace]
    exact absurd (hnone name hname _ hfile) (by simp [Component.normal?])

end Layout
end CodeAtlas
