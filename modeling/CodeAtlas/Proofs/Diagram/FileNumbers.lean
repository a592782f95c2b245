import Mathlib.Data.List.Dedup
import CodeAtlas.Diagram.Model
import CodeAtlas.Proofs.Module.ClassOrder

/-!
# The numbers of files

In a list of classes that is sorted by file, the runs of classes of one file are numbered. The
number of a file is that of the different files before it, so it is its own, and it does not depend
on how many classes the files have.
-/
namespace CodeAtlas

/-- How many different ones of the files come before a file. -/
def distinctBelow (files : List (List Component)) (file : List Component) : Nat :=
  files.dedup.countP fun g => Path.cmpComponents g file = .lt

section Distinct
variable {files : List (List Component)} {f g : List Component}

theorem distinctBelow_congr {files' : List (List Component)}
    (h : ∀ g, g ∈ files ↔ g ∈ files') (f : List Component) :
    distinctBelow files f = distinctBelow files' f := by
  apply List.Perm.countP_eq
  apply (List.perm_ext_iff_of_nodup (List.nodup_dedup files) (List.nodup_dedup files')).2
  intro g
  rw [List.mem_dedup, List.mem_dedup, h]

theorem distinctBelow_cons (h : g ∉ files) (f : List Component) :
    distinctBelow (g :: files) f =
      distinctBelow files f + if Path.cmpComponents g f = .lt then 1 else 0 := by
  rw [distinctBelow, List.dedup_cons_of_notMem h, List.countP_cons, distinctBelow]
  simp

theorem distinctBelow_eq_zero (h : ∀ g ∈ files, (Path.cmpComponents f g).isLE = true) :
    distinctBelow files f = 0 := by
  apply List.countP_eq_zero.2
  intro g hg
  have hle := h g (List.mem_dedup.1 hg)
  rw [@Std.OrientedCmp.eq_swap _ Path.cmpComponents _ f g] at hle
  cases hcmp : Path.cmpComponents g f with
  | lt => simp [hcmp] at hle
  | _ => simp

theorem distinctBelow_mono (h : Path.cmpComponents f g = .lt) :
    distinctBelow files f ≤ distinctBelow files g := by
  apply List.countP_mono_left
  intro x _ hx
  exact decide_eq_true (Std.TransCmp.lt_trans (of_decide_eq_true hx) h)

theorem distinctBelow_lt (hf : f ∈ files) (h : Path.cmpComponents f g = .lt) :
    distinctBelow files f < distinctBelow files g := by
  have hperm := List.perm_cons_erase (List.mem_dedup.2 hf)
  have hself : Path.cmpComponents f f = .eq := Std.ReflCmp.compare_self
  have hle : (files.dedup.erase f).countP (fun x => Path.cmpComponents x f = .lt) ≤
      (files.dedup.erase f).countP fun x => Path.cmpComponents x g = .lt := by
    apply List.countP_mono_left
    intro x _ hx
    exact decide_eq_true (Std.TransCmp.lt_trans (of_decide_eq_true hx) h)
  rw [distinctBelow, distinctBelow, hperm.countP_eq, hperm.countP_eq, List.countP_cons,
    List.countP_cons]
  simp only [hself, h]
  simp
  omega

theorem distinctBelow_inj (hf : f ∈ files) (hg : g ∈ files) :
    distinctBelow files f = distinctBelow files g ↔ f = g := by
  constructor
  · intro he
    cases hcmp : Path.cmpComponents f g with
    | lt => exact absurd he (distinctBelow_lt hf hcmp).ne
    | eq => exact Std.LawfulEqCmp.eq_of_compare hcmp
    | gt => exact absurd he (distinctBelow_lt hg (Std.OrientedCmp.gt_iff_lt.1 hcmp)).ne'
  · rintro rfl
    rfl

end Distinct

/-- How many different files of the classes come before a file. -/
def fileNumber (cs : List ClassInfo) (file : Path) : Nat :=
  distinctBelow (cs.map (·.file.components)) file.components

theorem map_snd_numberFilesFrom (current : Nat) (file : Path) (cs : List ClassInfo) :
    (numberFilesFrom current file cs).map (·.2) = cs := by
  induction cs generalizing current file with
  | nil => rfl
  | cons c cs ih => rw [numberFilesFrom, List.map_cons, ih]

theorem map_snd_numberFiles (cs : List ClassInfo) : (numberFiles cs).map (·.2) = cs := by
  cases cs with
  | nil => rfl
  | cons c cs => rw [numberFiles, List.map_cons, map_snd_numberFilesFrom]

/-- Whether the classes of each file follow one another, file after file. -/
def FileSorted (cs : List ClassInfo) : Prop :=
  cs.Pairwise fun a b => (a.cmpFile b).isLE = true

theorem FileSorted.distinctBelow_first {c : ClassInfo} {cs : List ClassInfo}
    (h : FileSorted (c :: cs)) :
    distinctBelow (c.file.components :: cs.map (·.file.components)) c.file.components = 0 := by
  apply distinctBelow_eq_zero
  intro g hg
  rcases List.mem_cons.1 hg with rfl | hg
  · rw [@Std.ReflCmp.compare_self _ Path.cmpComponents]
    rfl
  · obtain ⟨d, hd, rfl⟩ := List.mem_map.1 hg
    exact (List.pairwise_cons.1 h).1 d hd

/-- If the first file is another one than that before, it is behind it with all that follow. -/
theorem FileSorted.lt_of_ne {file : Path} {c : ClassInfo} {cs : List ClassInfo}
    (h : FileSorted (c :: cs)) (hle : (Path.cmp file c.file).isLE = true)
    (hne : file.components ≠ c.file.components) :
    ∀ d ∈ c :: cs, Path.cmpComponents file.components d.file.components = .lt := by
  have hc : Path.cmpComponents file.components c.file.components = .lt := by
    cases hcmp : Path.cmpComponents file.components c.file.components with
    | lt => rfl
    | eq => exact absurd (Std.LawfulEqCmp.eq_of_compare hcmp) hne
    | gt => simp [Path.cmp, hcmp] at hle
  intro d hd
  rcases List.mem_cons.1 hd with rfl | hd
  · exact hc
  · exact Std.TransCmp.lt_of_lt_of_isLE hc ((List.pairwise_cons.1 h).1 d hd)

/-- One file more in front adds one to the numbers of those that are behind it. -/
theorem distinctBelow_cons_of_lt {file : List Component} {cs : List ClassInfo}
    (h : ∀ d ∈ cs, Path.cmpComponents file d.file.components = .lt) :
    ∀ d ∈ cs, distinctBelow (file :: cs.map (·.file.components)) d.file.components =
      distinctBelow (cs.map (·.file.components)) d.file.components + 1 := by
  have hnew : file ∉ cs.map (·.file.components) := by
    intro hmem
    obtain ⟨d, hd, hfile⟩ := List.mem_map.1 hmem
    have hself := h d hd
    rw [hfile, @Std.ReflCmp.compare_self _ Path.cmpComponents] at hself
    contradiction
  intro d hd
  rw [distinctBelow_cons hnew, if_pos (h d hd)]

theorem numberFilesFrom_eq {cs : List ClassInfo} {file : Path} (hcs : FileSorted cs)
    (hfile : ∀ c ∈ cs, (Path.cmp file c.file).isLE = true) (current : Nat) :
    numberFilesFrom current file cs = cs.map fun c => (current +
      distinctBelow (file.components :: cs.map (·.file.components)) c.file.components, c) := by
  induction cs generalizing file current with
  | nil => rfl
  | cons c cs ih =>
    obtain ⟨hc, hrest⟩ := List.pairwise_cons.1 hcs
    have hfirst := hcs.distinctBelow_first
    rw [numberFilesFrom, List.map_cons]
    by_cases hsame : file.components = c.file.components
    · have hequal : ∀ f, distinctBelow (file.components :: (c :: cs).map (·.file.components)) f =
          distinctBelow (c.file.components :: cs.map (·.file.components)) f := by
        apply distinctBelow_congr
        simp [hsame]
      rw [if_pos (Path.same_iff.2 hsame), ih hrest hc]
      simp only [hequal, hfirst, Nat.add_zero]
    · have hone := distinctBelow_cons_of_lt (hcs.lt_of_ne (hfile c List.mem_cons_self) hsame)
      simp only [List.map_cons] at hone ⊢
      rw [if_neg (by simpa [Path.same] using hsame), ih hrest hc, hone c List.mem_cons_self, hfirst]
      congr 1
      apply List.map_congr_left
      intro d hd
      rw [hone d (List.mem_cons_of_mem c hd)]
      congr 1
      omega

/-- Some of the classes with the numbers that their files have among all. -/
def withNumbers (all part : List ClassInfo) : List (Nat × ClassInfo) :=
  part.map fun c => (fileNumber all c.file, c)

section WithNumbers
variable (all part part' : List ClassInfo)

theorem withNumbers_append : withNumbers all (part ++ part') =
    withNumbers all part ++ withNumbers all part' :=
  List.map_append

theorem withNumbers_cons (c : ClassInfo) : withNumbers all (c :: part) =
    (fileNumber all c.file, c) :: withNumbers all part := rfl

theorem mem_withNumbers {x : Nat × ClassInfo} :
    x ∈ withNumbers all part ↔ x.2 ∈ part ∧ x.1 = fileNumber all x.2.file := by
  rw [withNumbers, List.mem_map]
  constructor
  · rintro ⟨c, hc, rfl⟩
    exact ⟨hc, rfl⟩
  · rintro ⟨hc, he⟩
    exact ⟨x.2, hc, by rw [← he]⟩

end WithNumbers

theorem numberFiles_eq {cs : List ClassInfo} (h : FileSorted cs) :
    numberFiles cs = withNumbers cs cs := by
  cases cs with
  | nil => rfl
  | cons c cs =>
    obtain ⟨hc, hcs⟩ := List.pairwise_cons.1 h
    have hzero : fileNumber (c :: cs) c.file = 0 := h.distinctBelow_first
    rw [numberFiles, numberFilesFrom_eq hcs hc, withNumbers_cons, hzero]
    simp only [Nat.zero_add, withNumbers, fileNumber, List.map_cons]

theorem fileNumber_inj {cs : List ClassInfo} {c d : ClassInfo}
    (hc : c.file.components ∈ cs.map (·.file.components)) (hd : d ∈ cs) :
    fileNumber cs d.file = fileNumber cs c.file ↔ d.file.components = c.file.components :=
  distinctBelow_inj (List.mem_map_of_mem hd) hc

theorem countP_withNumbers {all part : List ClassInfo} {c : ClassInfo}
    (hc : c.file.components ∈ all.map (·.file.components)) (hsub : ∀ d ∈ part, d ∈ all) :
    (withNumbers all part).countP (fun x => x.1 = fileNumber all c.file) =
      part.countP fun d => d.file.same c.file := by
  rw [withNumbers, List.countP_map]
  apply List.countP_congr
  intro d hd
  simp only [Function.comp_apply, decide_eq_true_eq, fileNumber_inj hc (hsub d hd), Path.same_iff]

section Insert
variable {low high : List ClassInfo} {c : ClassInfo}

theorem fileNumber_insert_of_mem (h : ∃ d ∈ low ++ high, d.file.components = c.file.components)
    (file : Path) : fileNumber (low ++ c :: high) file = fileNumber (low ++ high) file := by
  apply distinctBelow_congr
  intro g
  obtain ⟨d, hd, he⟩ := h
  have hold : c.file.components ∈ (low ++ high).map (·.file.components) :=
    List.mem_map.2 ⟨d, hd, he⟩
  have hperm : ((low ++ c :: high).map (·.file.components)).Perm
      (c.file.components :: (low ++ high).map (·.file.components)) :=
    List.perm_middle.map _
  rw [hperm.mem_iff, List.mem_cons]
  constructor
  · rintro (rfl | hg)
    · exact hold
    · exact hg
  · exact Or.inr

theorem fileNumber_insert_of_not_mem
    (h : ∀ d ∈ low ++ high, d.file.components ≠ c.file.components) (file : Path) :
    fileNumber (low ++ c :: high) file =
      fileNumber (low ++ high) file + if Path.cmp c.file file = .lt then 1 else 0 := by
  have hnew : c.file.components ∉ (low ++ high).map (·.file.components) := by
    intro hmem
    obtain ⟨d, hd, he⟩ := List.mem_map.1 hmem
    exact h d hd he
  have hperm : ((low ++ c :: high).map (·.file.components)).Perm
      (c.file.components :: (low ++ high).map (·.file.components)) :=
    List.perm_middle.map _
  rw [fileNumber, distinctBelow_congr (fun g => hperm.mem_iff), distinctBelow_cons hnew]
  rfl

end Insert
end CodeAtlas
