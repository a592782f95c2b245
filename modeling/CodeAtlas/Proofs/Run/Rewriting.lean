import CodeAtlas.Proofs.Files.Changes
import CodeAtlas.Proofs.Run.Steps

/-!
# Writing documents again

Whatever the order in which the calls are done, documents that are files of their own end up as they
were meant, and they can be written once more, which changes nothing. If two documents are one file,
it is the order that decides what is left of them.
-/
namespace CodeAtlas

/-- Whether bytes that are written to the paths go to files of their own. -/
def FileTree.KeepsApart (t : FileTree) (paths : List Path) : Prop :=
  (paths.map t.destination).Nodup

def FileTree.Holds (t : FileTree) (p : Path) (text : String) : Prop :=
  ∃ l, t.destination p = .ok l ∧ t.find? l = some (.file (.text text))

inductive Writing (dir : Path) (docs : List Document) : FileTree → FileTree → Prop
  | make {t u : FileTree} (h : MakesDirectories t u) : Writing dir docs t u
  | put {t : FileTree} {d : Document} {l : Location} (hd : d ∈ docs)
      (hl : t.destination (dir.join d.path) = .ok l) :
    Writing dir docs t (t.put l (.file (.text d.content)))
  | trans {t u v : FileTree} (h : Writing dir docs t u) (h' : Writing dir docs u v) :
    Writing dir docs t v

/-- Whether a document has been written, or another one that is the same file. -/
structure Stands (dir : Path) (docs : List Document) (d : Document) (t : FileTree) : Prop where
  above : ∀ p, (dir.join d.path).parent? = some p → t.IsMade p
  file : ∃ l, ∃ e ∈ docs, t.destination (dir.join d.path) = .ok l ∧
    t.destination (dir.join e.path) = .ok l ∧ t.find? l = some (.file (.text e.content))

variable {t u v : FileTree} {dir : Path} {docs : List Document} {d : Document}

namespace Writing

theorem refl (t : FileTree) : Writing dir docs t t := .make (.refl t)

theorem grows (h : Writing dir docs t u) : FileTree.Grows t u := by
  induction h with
  | make h => exact h.toGrows
  | put hd hl => exact FileTree.grows_put_target hl _
  | trans _ _ ih ih' => exact ih.trans ih'

theorem wellFormed (h : Writing dir docs t u) (ht : t.WellFormed) : u.WellFormed := by
  induction h with
  | make h => exact h.wellFormed ht
  | put hd hl => exact ht.put_target hl _
  | trans _ _ ih ih' => exact ih' (ih ht)

end Writing

/-- No other work takes a document away. -/
theorem Stands.of_writing (h : Writing dir docs t u) (hd : Stands dir docs d t) :
    Stands dir docs d u := by
  induction h with
  | make h =>
    obtain ⟨habove, l, e, he, hl, hle, hfile⟩ := hd
    have hkept := h.find?_eq_file hfile
    exact ⟨fun p hp => h.toGrows.isMade (habove p hp), l, e, he, h.toGrows.destination hl hkept,
      h.toGrows.destination hle hkept, hkept⟩
  | @put t d' l' hd' hl' =>
    obtain ⟨habove, l, e, he, hl, hle, hfile⟩ := hd
    have hgrows := FileTree.grows_put_target hl' (.text d'.content)
    refine ⟨fun p hp => hgrows.isMade (habove p hp), l, ?_⟩
    by_cases hsame : l = l'
    · subst hsame
      have hput := t.find?_put_self (FileTree.target_ne_nil hl') (.file (.text d'.content))
      exact ⟨d', hd', hgrows.destination hl hput, hgrows.destination hl' hput, hput⟩
    · have hkept := (t.find?_put_of_ne hsame (.file (.text d'.content))).trans hfile
      exact ⟨e, he, hgrows.destination hl hkept, hgrows.destination hle hkept, hkept⟩
  | trans _ _ ih ih' => exact ih' (ih hd)

theorem ensures_write (hd : d ∈ docs)
    (habove : ∀ p, (dir.join d.path).parent? = some p → t.IsMade p) :
    (Work.write (dir.join d.path) (.text d.content)).Ensures (Writing dir docs)
      (fun outcome u => outcome = .ok () → Stands dir docs d u) t := by
  intro b hb
  simp only [bind, Except.bind]
  cases hl : b.destination (dir.join d.path) with
  | error e => exact ⟨.refl b, nofun⟩
  | ok l =>
    have hput := b.find?_put_self (FileTree.target_ne_nil hl) (.file (.text d.content))
    have hgrows := FileTree.grows_put_target hl (.text d.content)
    have hstands := hgrows.destination hl hput
    exact ⟨.put hd hl, fun _ => ⟨fun p hp => (hb.grows.trans hgrows).isMade (habove p hp),
      l, d, hd, hstands, hstands, hput⟩⟩

/-- The work of a document only makes directories and writes the document, which then stands. -/
theorem ensures_work (hd : d ∈ docs) (t : FileTree) : (d.work dir).Ensures (Writing dir docs)
    (fun outcome u => outcome = .ok () → Stands dir docs d u) t := by
  unfold Document.work
  cases hparent : (dir.join d.path).parent? with
  | none => exact ensures_write hd (by simp [hparent])
  | some p =>
    refine (Work.ensures_makeDirectories .make p t).bind (fun _ u hmade => ?_) fun _ _ _ => nofun
    refine ensures_write hd fun q hq => ?_
    obtain rfl := Option.some.inj (hparent.symm.trans hq)
    exact hmade rfl

theorem writesTo_ok {written : List Path} (h : WritesTo dir docs t (.ok written) u) :
    written = (docs.map fun d => dir.join d.path) ∧ Writing dir docs t u ∧ u.IsMade dir ∧
      ∀ d ∈ docs, Stands dir docs d u := by
  cases h with
  | @written v _ hdir hsteps =>
    have hmake : (Work.makeDirectories dir).Ensures (Writing dir docs) (Work.Made dir) t :=
      Work.ensures_makeDirectories .make dir t
    have hmade := hmake.run Writing.refl .trans
    rw [hdir] at hmade
    obtain ⟨hwriting, hdone⟩ := hsteps.ensures_map Writing.refl .trans
      (fun d _ _ _ hu hstands hok => (hstands hok).of_writing hu) fun d hd => ensures_work hd v
    rw [List.forall₂_map_right_iff, List.forall₂_same] at hdone
    exact ⟨rfl, .trans hmade.1 hwriting, hwriting.grows.isMade (hmade.2 rfl),
      fun d hd => hdone d hd rfl⟩

/-- A document that is a file of its own is there as it was meant. -/
theorem Stands.holds (h : Stands dir docs d t) (hd : d ∈ docs)
    (hapart : t.KeepsApart (docs.map fun d => dir.join d.path)) :
    t.Holds (dir.join d.path) d.content := by
  obtain ⟨-, l, e, he, hl, hle, hfile⟩ := h
  rw [FileTree.KeepsApart, List.map_map] at hapart
  obtain rfl := List.inj_on_of_nodup_map hapart he hd (hle.trans hl.symm)
  exact ⟨l, hl, hfile⟩

theorem FileTree.Same.holds (h : t.Same u) {p : Path} {text : String} (hp : u.Holds p text) :
    t.Holds p text := by
  obtain ⟨l, hl, hfile⟩ := hp
  have hfile' := (h.symm.find?_eq l).trans hfile
  exact ⟨l, h.symm.grows.destination hl hfile', hfile'⟩

/-! ### Once more -/

/-- Work on a document can only succeed if its directory and its file are there and stay. -/
theorem ensures_work_of_stays {R : FileTree → FileTree → Prop} (hrefl : ∀ t, R t t)
    (htrans : ∀ {t u v}, R t u → R u v → R t v)
    (habove : ∀ p, (dir.join d.path).parent? = some p → ∀ u, R t u → u.IsMade p)
    (hfile : ∀ u, R t u → ∃ l, u.destination (dir.join d.path) = .ok l ∧
      R u (u.put l (.file (.text d.content)))) :
    (d.work dir).Ensures R (fun outcome _ => outcome = .ok ()) t := by
  have hwrite : ∀ u, R t u → (Work.write (dir.join d.path) (.text d.content)).Ensures R
      (fun outcome _ => outcome = .ok ()) u := by
    intro u hu b hb
    obtain ⟨l, hl, hput⟩ := hfile b (htrans hu hb)
    simp only [bind, Except.bind, hl]
    exact ⟨hput, rfl⟩
  unfold Document.work
  cases hparent : (dir.join d.path).parent? with
  | none => exact hwrite t (hrefl t)
  | some p =>
    have hmake := (Work.ensures_makeDirectories_of_isMade hrefl htrans
      (habove p hparent)).and_rely hrefl htrans
    exact hmake.bind (fun _ u hu => hwrite u hu.1) fun _ _ he => nomatch he.2

theorem ensures_work_of_holds (habove : ∀ p, (dir.join d.path).parent? = some p → t.IsMade p)
    (hholds : t.Holds (dir.join d.path) d.content) :
    (d.work dir).Ensures FileTree.Same (fun outcome _ => outcome = .ok ()) t := by
  obtain ⟨l, hl, hfile⟩ := hholds
  refine ensures_work_of_stays FileTree.Same.refl .trans
    (fun p hp u hu => hu.grows.isMade (habove p hp)) fun u hu => ?_
  have hfile' := (hu.find?_eq l).trans hfile
  exact ⟨l, hu.grows.destination hl hfile', .put (FileTree.target_ne_nil hl) hfile'⟩

theorem ensures_work_of_stands (hd : d ∈ docs) (h : Stands dir docs d t) :
    (d.work dir).Ensures (Writing dir docs) (fun outcome _ => outcome = .ok ()) t := by
  refine ensures_work_of_stays Writing.refl .trans
    (fun p hp u hu => (h.of_writing hu).above p hp) fun u hu => ?_
  obtain ⟨l, -, -, hl, -⟩ := (h.of_writing hu).file
  exact ⟨l, hl, .put hd hl⟩

/-- Work that can only succeed, whatever others do in a way of `R`, succeeds side by side. -/
theorem writesTo_of_ensures {R : FileTree → FileTree → Prop} (hrefl : ∀ t, R t t)
    (htrans : ∀ {t u v}, R t u → R u v → R t v) (hdir : ∀ u, R t u → u.IsMade dir)
    (hdocs : ∀ d ∈ docs, (d.work dir).Ensures R (fun outcome _ => outcome = .ok ()) t)
    {outcome : Except Failure (List Path)} (h : WritesTo dir docs t outcome u) :
    outcome = .ok (docs.map fun d => dir.join d.path) ∧ R t u := by
  have hmade := (Work.ensures_makeDirectories_of_isMade hrefl htrans hdir).run hrefl htrans
  have hsteps : ∀ {v works}, R t v → Work.Steps (docs.map (Document.work dir)) v works u →
      R v u ∧ List.Forall₂ (fun _ w => w.Ensures R (fun outcome _ => outcome = .ok ()) u)
        docs works := by
    intro v works hv hcalls
    exact hcalls.ensures_map hrefl htrans (fun _ _ _ _ _ hok => hok) fun d hd =>
      (hdocs d hd).of_rely htrans (fun _ _ _ _ hok => hok) hv
  cases h with
  | unprepared hfail =>
    rw [hfail] at hmade
    exact nomatch hmade.2
  | failed hv hcalls he =>
    rw [hv] at hmade
    exact nomatch (List.forall₂_iff_zip.1 (hsteps hmade.1 hcalls).2).2 he
  | written hv hcalls =>
    rw [hv] at hmade
    exact ⟨rfl, htrans hmade.1 (hsteps hmade.1 hcalls).1⟩

/-- Documents that are files of their own can be written once more, in whatever order, and this
leaves every entry as it is. -/
theorem writesTo_again {written : List Path} (h : WritesTo dir docs t (.ok written) u)
    (hapart : u.KeepsApart written) {outcome : Except Failure (List Path)} {w : FileTree}
    (hagain : WritesTo dir docs u outcome w) : outcome = .ok written ∧ u.Same w := by
  obtain ⟨rfl, -, hdir, hstands⟩ := writesTo_ok h
  exact writesTo_of_ensures FileTree.Same.refl .trans (fun v hv => hv.grows.isMade hdir)
    (fun d hd => ensures_work_of_holds (hstands d hd).above ((hstands d hd).holds hd hapart)) hagain

/-- Any document may be the last to be written, so of those that are one file any may be left. -/
theorem exists_writesTo_holds {written : List Path} (h : WritesTo dir docs t (.ok written) u)
    (hd : d ∈ docs) :
    ∃ w, WritesTo dir docs u (.ok written) w ∧ w.Holds (dir.join d.path) d.content := by
  obtain ⟨rfl, -, hdir, hstands⟩ := writesTo_ok h
  obtain ⟨others, hperm⟩ : ∃ others, (others ++ [d]).Perm docs := by
    obtain ⟨before, after, rfl⟩ := List.append_of_mem hd
    exact ⟨before ++ after, (List.perm_append_singleton d _).trans List.perm_middle.symm⟩
  have hothers : ∀ e ∈ others, e ∈ docs := fun e he =>
    hperm.subset (List.mem_append_left [d] he)
  have hfirst := writesTo_writeDocuments dir others u
  obtain ⟨hok, hwriting⟩ := writesTo_of_ensures (R := Writing dir docs) Writing.refl .trans
    (fun v hv => hv.grows.isMade hdir)
    (fun e he => ensures_work_of_stands (hothers e he) (hstands e (hothers e he))) hfirst
  rw [hok] at hfirst
  generalize (Filing.perform (writeDocuments dir others) u).2 = v at hfirst hwriting
  cases hfirst with
  | written hmake hsteps =>
    have hlast := (ensures_work_of_stands hd ((hstands d hd).of_writing hwriting)).run
      Writing.refl .trans
    have hwork : (d.work dir).Ensures (Writing dir [d]) _ v :=
      ensures_work (List.mem_singleton_self d) v
    have hleft := hwork.run Writing.refl .trans
    have hdone := Work.steps_run (others.map fun _ => .done (.ok ())) [] (d.work dir) v
    cases hrun : (d.work dir).run v with
    | mk outcome w =>
      rw [hrun] at hlast hleft hdone
      obtain rfl : outcome = .ok () := hlast.2
      have hall : WritesTo dir (others ++ [d]) u
          (.ok ((others ++ [d]).map fun d => dir.join d.path)) w := by
        refine .written hmake ?_
        rw [List.map_append, List.map_append]
        exact (hsteps.append [d.work dir]).trans hdone
      exact ⟨w, writesTo_of_perm hperm hall,
        (hleft.2 rfl).holds (List.mem_singleton_self d) (List.nodup_singleton _)⟩

end CodeAtlas
