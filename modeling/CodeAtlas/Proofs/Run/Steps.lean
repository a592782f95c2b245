import CodeAtlas.Proofs.Files.Performing
import CodeAtlas.Proofs.Files.SideBySide
import CodeAtlas.Proofs.Outcomes
import CodeAtlas.Run.Write

/-!
# What runs come to

A run makes a survey, for which it has to pass the check of the settings, find the roots and look
for files under them, and then writes its documents side by side. So there may be several trees that
it leaves. One of them is that of writing the documents one after another.
-/
namespace CodeAtlas

variable {s : Settings} {r : Registry} {t u : FileTree} {dir : Path} {docs : List Document}

/-! ### Surveys -/

def Settings.surveyOf (s : Settings) (r : Registry) (t : FileTree) (roots : List Path)
    (discovery : Discovery) : Survey :=
  let reports := discovery.files.map (r.report t)
  { roots := roots
    discovery := discovery
    settings := s.resolve discovery.languages
    reports := reports
    aggregation := aggregate roots (reports.filterMap (·.source))
      (reports.flatMap (·.analysis.classes)) }

theorem survey_eq_ok {v : Survey} : s.survey r t = .ok v ↔
    ∃ roots discovery, s.check = .ok () ∧ t.rootPaths s.discovery.roots = .ok roots ∧
      s.discover r t roots = .ok discovery ∧ v = s.surveyOf r t roots discovery := by
  simp only [Settings.survey, Except.bind_eq_ok_iff, Except.pure_eq_ok_iff]
  constructor
  · rintro ⟨_, hcheck, roots, hroots, discovery, hdiscovery, rfl⟩
    exact ⟨roots, discovery, hcheck, hroots, hdiscovery, rfl⟩
  · rintro ⟨roots, discovery, hcheck, hroots, hdiscovery, rfl⟩
    exact ⟨(), hcheck, roots, hroots, discovery, hdiscovery, rfl⟩

theorem Survey.map_path_documents (v : Survey) : v.documents.map (·.path) =
    ⟨v.settings.overviewFile⟩ ::
      v.tree.documented.map fun n => n.documentPath v.settings.moduleFile := by
  simp [Survey.documents, Layout.documents, Layout.targets, Layout.render, Survey.layout,
    Function.comp_def]

theorem runsTo_ok_iff {summary : RunSummary} : s.RunsTo r t (.ok summary) u ↔
    ∃ v written, s.survey r t = .ok v ∧
      WritesTo v.settings.outputDirectory v.documents t (.ok written) u ∧
        summary = v.summary written := by
  unfold Settings.RunsTo
  cases s.survey r t with
  | error e => simp
  | ok v =>
    constructor
    · rintro ⟨written, hwritten, hsummary⟩
      cases written with
      | error e => simp [Except.map] at hsummary
      | ok paths => exact ⟨v, paths, rfl, hwritten, Except.ok.inj hsummary⟩
    · rintro ⟨_, paths, hv, hwritten, rfl⟩
      obtain rfl := Except.ok.inj hv
      exact ⟨.ok paths, hwritten, rfl⟩

/-! ### One document after another -/

theorem perform_failingWith {α : Type} (failure : FileFault → Failure) (w : Work α) :
    Filing.perform (.failingWith failure (.ofWork w)) t =
      ((w.run t).1.mapError failure, (w.run t).2) := rfl

theorem perform_document_write (dir : Path) (d : Document) : Filing.perform (d.write dir) t =
    (((d.work dir).run t).1.mapError (.document (dir.join d.path)) |>.map fun _ => dir.join d.path,
      ((d.work dir).run t).2) := by
  have hwork := perform_failingWith (t := t) (.document (dir.join d.path)) (d.work dir)
  rw [Document.write]
  cases hrun : (d.work dir).run t with
  | mk outcome u =>
    rw [hrun] at hwork
    cases outcome with
    | ok a => rw [Filing.perform_bind_of_ok hwork]; rfl
    | error e => rw [Filing.perform_bind_of_error hwork]; rfl

/-- Documents that are written in turn do the calls of one after those of another. -/
theorem exists_steps_mapM_write (dir : Path) (before : List (Work Unit)) (docs : List Document)
    (t : FileTree) :
    ∃ works, Work.Steps (before ++ docs.map (Document.work dir)) t (before ++ works)
        (Filing.perform (docs.mapM (Document.write dir)) t).2 ∧
      ((Filing.perform (docs.mapM (Document.write dir)) t).1 =
          .ok (docs.map fun d => dir.join d.path) ∧ works = (docs.map fun _ => .done (.ok ())) ∨
        ∃ d e, (Filing.perform (docs.mapM (Document.write dir)) t).1 =
          .error (.document (dir.join d.path) e) ∧ (d, .done (.error e)) ∈ docs.zip works) := by
  induction docs generalizing before t with
  | nil => exact ⟨[], .refl _ t, .inl ⟨rfl, rfl⟩⟩
  | cons d docs ih =>
    have hfirst := Work.steps_run before (docs.map (Document.work dir)) (d.work dir) t
    have hwrite := perform_document_write (t := t) dir d
    rw [List.mapM_cons]
    cases hrun : (d.work dir).run t with
    | mk outcome v =>
      rw [hrun] at hfirst hwrite
      cases outcome with
      | error e =>
        rw [Filing.perform_bind_of_error hwrite]
        exact ⟨_, hfirst, .inr ⟨d, e, rfl, List.mem_cons_self⟩⟩
      | ok a =>
        rw [Filing.perform_bind_of_ok hwrite]
        obtain ⟨works, hsteps, hworks⟩ := ih (before ++ [.done (.ok a)]) v
        simp only [List.append_assoc, List.singleton_append] at hsteps
        refine ⟨.done (.ok a) :: works, ?_⟩
        cases hrest : Filing.perform (docs.mapM (Document.write dir)) v with
        | mk rest w =>
          rw [hrest] at hsteps hworks
          rcases hworks with ⟨rfl, rfl⟩ | ⟨d', e, rfl, hmem⟩
          · rw [Filing.perform_bind_of_ok hrest]
            exact ⟨hfirst.trans hsteps, .inl ⟨rfl, rfl⟩⟩
          · rw [Filing.perform_bind_of_error hrest]
            exact ⟨hfirst.trans hsteps, .inr ⟨d', e, rfl, List.mem_cons_of_mem _ hmem⟩⟩

theorem writesTo_writeDocuments (dir : Path) (docs : List Document) (t : FileTree) :
    WritesTo dir docs t (Filing.perform (writeDocuments dir docs) t).1
      (Filing.perform (writeDocuments dir docs) t).2 := by
  have hmake : Filing.perform (.failingWith (.outputDirectory dir) (.makeDirectories dir)) t = _ :=
    perform_failingWith (.outputDirectory dir) (.makeDirectories dir)
  rw [writeDocuments]
  cases hdir : (Work.makeDirectories dir).run t with
  | mk outcome v =>
    rw [hdir] at hmake
    cases outcome with
    | error e =>
      rw [Filing.perform_bind_of_error hmake]
      exact .unprepared hdir
    | ok a =>
      rw [Filing.perform_bind_of_ok hmake]
      obtain ⟨works, hsteps, ⟨hok, rfl⟩ | ⟨d, e, herror, hmem⟩⟩ :=
        exists_steps_mapM_write dir [] docs v
      · rw [hok]
        exact .written hdir hsteps
      · rw [herror]
        exact .failed hdir hsteps hmem

/-- What the program that is run comes to is one of the things that a run may come to. -/
theorem runsTo_run (s : Settings) (r : Registry) (t : FileTree) :
    s.RunsTo r t (Filing.perform (s.run r) t).1 (Filing.perform (s.run r) t).2 := by
  rw [Settings.run, Filing.perform_bind_of_ok Filing.perform_get]
  unfold Settings.RunsTo
  cases hv : s.survey r t with
  | error e =>
    rw [Filing.perform_bind_of_error (Filing.perform_liftM (.error e))]
    exact ⟨rfl, rfl⟩
  | ok v =>
    rw [Filing.perform_bind_of_ok (Filing.perform_liftM (.ok v))]
    have hwritten := writesTo_writeDocuments v.settings.outputDirectory v.documents t
    cases hwrite : Filing.perform (writeDocuments v.settings.outputDirectory v.documents) t with
    | mk written u =>
      rw [hwrite] at hwritten
      refine ⟨written, ?_⟩
      cases written with
      | error e =>
        rw [Filing.perform_bind_of_error hwrite]
        exact ⟨hwritten, rfl⟩
      | ok paths =>
        rw [Filing.perform_bind_of_ok hwrite]
        exact ⟨hwritten, rfl⟩

theorem exists_runsTo_of_isOk (s : Settings) (r : Registry) (t : FileTree)
    (h : (Filing.perform (s.run r) t).1.isOk = true) :
    ∃ summary, s.RunsTo r t (.ok summary) (Filing.perform (s.run r) t).2 := by
  obtain ⟨summary, hrun⟩ := Filing.exists_perform_eq_ok (s.run r) t h
  have hto := runsTo_run s r t
  rw [hrun] at hto
  exact ⟨summary, hto⟩

/-- Documents may as well be written in another order than that in which they are listed. -/
theorem writesTo_of_perm {order : List Document} {paths : List Path} (hperm : order.Perm docs)
    (h : WritesTo dir order t (.ok paths) u) :
    WritesTo dir docs t (.ok (docs.map fun d => dir.join d.path)) u := by
  cases h with
  | written hdir hsteps =>
    obtain ⟨works, hsteps, hdone⟩ := hsteps.perm (hperm.map (Document.work dir))
    refine .written hdir ?_
    have hworks : works = docs.map fun _ => .done (.ok ()) := by
      rw [List.map_const'] at hdone ⊢
      rw [List.perm_replicate.1 hdone.symm, hperm.length_eq]
    exact hworks ▸ hsteps

end CodeAtlas
