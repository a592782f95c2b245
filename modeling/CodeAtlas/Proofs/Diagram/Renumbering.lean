import CodeAtlas.Proofs.Diagram.ClassIds
import CodeAtlas.Proofs.Module.SameModules
import CodeAtlas.Proofs.Module.Totals

namespace CodeAtlas

/-! ### The classes of one module -/

section Insert
variable {low high : List ClassInfo} {c : ClassInfo} (hsorted : FileSorted (low ++ c :: high))
include hsorted

theorem FileSorted.without : FileSorted (low ++ high) :=
  List.Pairwise.sublist (List.Sublist.append_left (List.sublist_cons_self c high) low) hsorted

theorem FileSorted.cmpFile_of_mem_low {d : ClassInfo} (hd : d ∈ low)
    (hne : d.file.components ≠ c.file.components) : d.cmpFile c = .lt := by
  have hle := (List.pairwise_append.1 hsorted).2.2 d hd c List.mem_cons_self
  cases hcmp : d.cmpFile c with
  | lt => rfl
  | eq => exact absurd (@Std.LawfulEqCmp.eq_of_compare _ Path.cmpComponents _ _ _ hcmp) hne
  | gt => simp [hcmp] at hle

theorem FileSorted.cmpFile_of_mem_high {d : ClassInfo} (hd : d ∈ high)
    (hne : d.file.components ≠ c.file.components) : c.cmpFile d = .lt := by
  have hle := (List.pairwise_cons.1 (List.pairwise_append.1 hsorted).2.1).1 d hd
  cases hcmp : c.cmpFile d with
  | lt => rfl
  | eq => exact absurd (@Std.LawfulEqCmp.eq_of_compare _ Path.cmpComponents _ _ _ hcmp).symm hne
  | gt => simp [hcmp] at hle

theorem numberFiles_insert_of_mem
    (hmem : ∃ d ∈ low ++ high, d.file.components = c.file.components) :
    numberFiles (low ++ c :: high) = withNumbers (low ++ high) low ++
      (fileNumber (low ++ high) c.file, c) :: withNumbers (low ++ high) high := by
  rw [numberFiles_eq hsorted, ← withNumbers_cons, ← withNumbers_append]
  simp only [withNumbers, fileNumber_insert_of_mem hmem]

theorem numberFiles_insert_of_not_mem
    (hne : ∀ d ∈ low ++ high, d.file.components ≠ c.file.components) :
    numberFiles (low ++ c :: high) = withNumbers (low ++ high) low ++
      (fileNumber (low ++ high) c.file, c) ::
        (withNumbers (low ++ high) high).map fun x => (x.1 + 1, x.2) := by
  have hself : Path.cmp c.file c.file = .eq :=
    @Std.ReflCmp.compare_self _ Path.cmpComponents _ c.file.components
  rw [numberFiles_eq hsorted, withNumbers_append, withNumbers_cons]
  congr 1
  · apply List.map_congr_left
    intro d hd
    have hlt := hsorted.cmpFile_of_mem_low hd (hne d (List.mem_append_left high hd))
    have hgt : Path.cmp c.file d.file = .gt :=
      @Std.OrientedCmp.gt_of_lt _ Path.cmpComponents _ _ _ hlt
    rw [fileNumber_insert_of_not_mem hne, hgt]
    rfl
  · congr 1
    · rw [fileNumber_insert_of_not_mem hne, hself]
      rfl
    · rw [withNumbers, withNumbers, List.map_map]
      apply List.map_congr_left
      intro d hd
      have hlt : Path.cmp c.file d.file = .lt :=
        hsorted.cmpFile_of_mem_high hd (hne d (List.mem_append_right low hd))
      rw [fileNumber_insert_of_not_mem hne, if_pos hlt]
      rfl

theorem countP_withNumbers_low
    (hne : ∀ d ∈ low ++ high, d.file.components ≠ c.file.components) {n : Nat}
    (hn : fileNumber (low ++ high) c.file ≤ n) :
    (withNumbers (low ++ high) low).countP (fun x => x.1 = n) = 0 := by
  rw [List.countP_eq_zero]
  intro x hx
  obtain ⟨hd, hnumber⟩ := (mem_withNumbers _ _).1 hx
  have hmem := List.mem_append_left high hd
  have hlt : fileNumber (low ++ high) x.2.file < fileNumber (low ++ high) c.file :=
    distinctBelow_lt (List.mem_map_of_mem hmem) (hsorted.cmpFile_of_mem_low hd (hne _ hmem))
  simp only [decide_eq_true_eq]
  omega

/-- A class that is the last of its file is counted after the others and changes no count. -/
theorem countedFrom_insert_of_mem
    (hmem : ∃ d ∈ low ++ high, d.file.components = c.file.components)
    (hhigh : ∀ d ∈ high, d.file.components ≠ c.file.components) :
    ∃ first last f, countedFrom (fun _ => 0) (numberFiles (low ++ high)) = first ++ last ∧
      countedFrom (fun _ => 0) (numberFiles (low ++ c :: high)) =
        first ++ (c, f, (low ++ high).countP fun d => d.file.same c.file) :: last ∧
      ∀ e ∈ first ++ last, (e.1.file.components = c.file.components → e.2.1 = f) ∧
        (e.2.1 = f → e.2.2 < (low ++ high).countP fun d => d.file.same c.file) := by
  have hold := numberFiles_eq hsorted.without
  have hc : c.file.components ∈ (low ++ high).map (·.file.components) := by
    obtain ⟨d, hd, he⟩ := hmem
    exact List.mem_map.2 ⟨d, hd, he⟩
  have hnew := numberFiles_insert_of_mem hsorted hmem
  have hcount : (withNumbers (low ++ high) low).countP
      (fun x => x.1 = fileNumber (low ++ high) c.file) =
        (low ++ high).countP fun d => d.file.same c.file := by
    have hzero : high.countP (fun d => d.file.same c.file) = 0 := by
      rw [List.countP_eq_zero]
      intro d hd
      rw [Path.same_iff]
      exact hhigh d hd
    rw [countP_withNumbers hc fun d => List.mem_append_left high, List.countP_append, hzero,
      Nat.add_zero]
  refine ⟨countedFrom (fun _ => 0) (withNumbers (low ++ high) low),
    countedFrom (fun g => 0 + (withNumbers (low ++ high) low).countP fun x => x.1 = g)
      (withNumbers (low ++ high) high), fileNumber (low ++ high) c.file, ?_, ?_, ?_⟩
  · rw [hold, withNumbers_append, countedFrom_append]
  · rw [hnew, countedFrom_append, countedFrom, hcount, Nat.zero_add]
    congr 2
    apply countedFrom_congr
    intro x hx
    obtain ⟨hd, hnumber⟩ := (mem_withNumbers _ _).1 hx
    have hne := (fileNumber_inj hc (List.mem_append_right low hd)).not.2 (hhigh _ hd)
    rw [← hnumber] at hne
    exact if_neg hne
  · intro e he
    rw [← countedFrom_append, ← withNumbers_append] at he
    obtain ⟨hin, -, hlt⟩ := mem_countedFrom he
    obtain ⟨hd, hnumber⟩ := (mem_withNumbers _ _).1 hin
    constructor
    · intro hsame
      exact hnumber.trans ((fileNumber_inj hc hd).2 hsame)
    · intro hf
      rw [hf, countP_withNumbers hc fun d hd => hd, Nat.zero_add] at hlt
      exact hlt

/-- A class of a file that has no other moves the numbers of the files behind it by one. -/
theorem countedFrom_insert_of_not_mem
    (hne : ∀ d ∈ low ++ high, d.file.components ≠ c.file.components) :
    ∃ first last f, countedFrom (fun _ => 0) (numberFiles (low ++ high)) = first ++ last ∧
      countedFrom (fun _ => 0) (numberFiles (low ++ c :: high)) =
        first ++ (c, f, 0) :: last.map (fun e => (e.1, e.2.1 + 1, e.2.2)) ∧
      (∀ e ∈ first, e.1.cmpFile c = .lt) ∧ ∀ e ∈ last, c.cmpFile e.1 = .lt := by
  have hold := numberFiles_eq hsorted.without
  have hnew := numberFiles_insert_of_not_mem hsorted hne
  have hlow : ∀ d ∈ low, d.cmpFile c = .lt := fun d hd =>
    hsorted.cmpFile_of_mem_low hd (hne d (List.mem_append_left high hd))
  have hhigh : ∀ d ∈ high, c.cmpFile d = .lt := fun d hd =>
    hsorted.cmpFile_of_mem_high hd (hne d (List.mem_append_right low hd))
  have hfst : ∀ (taken : Nat → Nat) (cs : List ClassInfo),
      ∀ e ∈ countedFrom taken (withNumbers (low ++ high) cs), e.1 ∈ cs := by
    intro taken cs e he
    exact ((mem_withNumbers _ _).1 (mem_countedFrom he).1).1
  refine ⟨countedFrom (fun _ => 0) (withNumbers (low ++ high) low),
    countedFrom (fun g => 0 + (withNumbers (low ++ high) low).countP fun x => x.1 = g)
      (withNumbers (low ++ high) high), fileNumber (low ++ high) c.file, ?_, ?_, ?_, ?_⟩
  · rw [hold, withNumbers_append, countedFrom_append]
  · rw [hnew, countedFrom_append, countedFrom, countP_withNumbers_low hsorted hne (Nat.le_refl _)]
    congr 2
    apply countedFrom_map_succ
    intro x hx
    obtain ⟨hd, hnumber⟩ := (mem_withNumbers _ _).1 hx
    have hle : fileNumber (low ++ high) c.file ≤ fileNumber (low ++ high) x.2.file :=
      distinctBelow_mono (hhigh _ hd)
    rw [← hnumber] at hle
    rw [if_neg (by omega), countP_withNumbers_low hsorted hne (by omega),
      countP_withNumbers_low hsorted hne hle]
  · exact fun e he => hlow _ (hfst _ _ e he)
  · exact fun e he => hhigh _ (hfst _ _ e he)

end Insert

/-! ### The module of the class -/

section Trees
variable {rootPaths : List Path} {before after : List ClassInfo} {c : ClassInfo}

theorem exists_insert_iff {β : Type} {f : ClassInfo → β}
    (hc : ∃ d ∈ before ++ after, f d = f c) (b : β) :
    (∃ d ∈ before ++ c :: after, f d = b) ↔ ∃ d ∈ before ++ after, f d = b := by
  constructor
  · rintro ⟨d, hd, rfl⟩
    rcases List.mem_cons.1 (List.perm_middle.mem_iff.1 hd) with rfl | hd
    · exact hc
    · exact ⟨d, hd, rfl⟩
  · rintro ⟨d, hd, rfl⟩
    exact ⟨d, List.perm_middle.mem_iff.2 (List.mem_cons_of_mem c hd), rfl⟩

/-- Two trees of which the second has a class more, in a module that the first has too. -/
structure OneMore (roots : List ModuleRoot) (c : ClassInfo) (old new : ModuleTree) (m : Nat)
    (low high : List ClassInfo) : Prop where
  size_eq : new.size = old.size
  lt_size : m < old.size
  key_eq : (old.get m).key = classKey roots c
  classes_old : (old.get m).classes = low ++ high
  classes_new : (new.get m).classes = low ++ c :: high
  sorted : (low ++ c :: high).Pairwise fun a b => (a.cmp b).isLE = true
  classes_eq : ∀ i < old.size, i ≠ m → (new.get i).classes = (old.get i).classes

theorem exists_oneMore (files : List SourceFile) (hkey : ∃ d ∈ before ++ after,
      classKey (ModuleRoot.ofPaths rootPaths) d = classKey (ModuleRoot.ofPaths rootPaths) c) :
    ∃ m low high, OneMore (ModuleRoot.ofPaths rootPaths) c
      (aggregate rootPaths files (before ++ after)).tree
      (aggregate rootPaths files (before ++ c :: after)).tree m low high := by
  have hold := aggregate_built rootPaths files (before ++ after)
  have hnew := aggregate_built rootPaths files (before ++ c :: after)
  have hkeys : (aggregate rootPaths files (before ++ c :: after)).tree.nodes.toList.map (·.key) =
      (aggregate rootPaths files (before ++ after)).tree.nodes.toList.map (·.key) := by
    rw [hnew.keys_eq, hold.keys_eq, moduleKeys_congr (exists_insert_iff hkey)]
  have hsize := size_eq_of_keys_eq hkeys
  obtain ⟨d, hd, hdc⟩ := hkey
  obtain ⟨m, hm, hmkey⟩ := hold.exists_get_key (classKey_mem hd)
  rw [hdc] at hmkey
  have hm' : m < (aggregate rootPaths files (before ++ c :: after)).tree.size := hsize ▸ hm
  obtain ⟨low, high, hlow, hhigh⟩ := exists_sortClasses_insert
    (before.filter fun d => classKey (ModuleRoot.ofPaths rootPaths) d =
      classKey (ModuleRoot.ofPaths rootPaths) c)
    (after.filter fun d => classKey (ModuleRoot.ofPaths rootPaths) d =
      classKey (ModuleRoot.ofPaths rootPaths) c) c
  have hclasses : ((aggregate rootPaths files (before ++ c :: after)).tree.get m).classes =
      low ++ c :: high := by
    rw [hnew.get_classes hm', key_eq_of_keys_eq hkeys hm', hmkey, List.filter_append,
      List.filter_cons_of_pos (by simp), hhigh]
  refine ⟨m, low, high, hsize, hm, hmkey, ?_, hclasses, ?_, ?_⟩
  · rw [hold.get_classes hm, hmkey, List.filter_append, hlow]
  · rw [← hhigh]
    exact pairwise_sortClasses _
  · intro i hi hne
    have hi' : i < (aggregate rootPaths files (before ++ c :: after)).tree.size := hsize ▸ hi
    have hother : classKey (ModuleRoot.ofPaths rootPaths) c ≠
        ((aggregate rootPaths files (before ++ after)).tree.get i).key := by
      rw [← hmkey]
      exact fun he => hne (hold.get_key_inj hm hi he).symm
    rw [hnew.get_classes hi', hold.get_classes hi, key_eq_of_keys_eq hkeys hi',
      List.filter_append, List.filter_cons_of_neg (by simpa using hother), List.filter_append]

theorem range_eq_append_cons {n m : Nat} (hm : m < n) :
    List.range n = List.range m ++ m :: List.range' (m + 1) (n - (m + 1)) := by
  have hlast : m :: List.range' (m + 1) (n - (m + 1)) = List.range' m (n - m) := by
    rw [← List.range'_succ]
    congr 1
    omega
  have happend := @List.range'_append_1 0 m (n - m)
  rw [Nat.zero_add, show m + (n - m) = n by omega] at happend
  rw [hlast, List.range_eq_range', List.range_eq_range', happend]

theorem exists_flatMap_range {α : Type} {f g : Nat → List α} {n m : Nat} (hm : m < n)
    (h : ∀ i < n, i ≠ m → g i = f i) :
    ∃ first last, (List.range n).flatMap f = first ++ f m ++ last ∧
      (List.range n).flatMap g = first ++ g m ++ last ∧
      ∀ x ∈ first ++ last, ∃ i < n, i ≠ m ∧ x ∈ f i := by
  have hrange := range_eq_append_cons hm
  have hfirst : (List.range m).flatMap g = (List.range m).flatMap f := by
    apply List.flatMap_congr
    intro i hi
    have hlt := List.mem_range.1 hi
    exact h i (by omega) (by omega)
  have hlast : (List.range' (m + 1) (n - (m + 1))).flatMap g =
      (List.range' (m + 1) (n - (m + 1))).flatMap f := by
    apply List.flatMap_congr
    intro i hi
    have hlt := List.mem_range'_1.1 hi
    exact h i (by omega) (by omega)
  refine ⟨(List.range m).flatMap f, (List.range' (m + 1) (n - (m + 1))).flatMap f, ?_, ?_, ?_⟩
  · rw [hrange, List.flatMap_append, List.flatMap_cons, List.append_assoc]
  · rw [hrange, List.flatMap_append, List.flatMap_cons, hfirst, hlast, List.append_assoc]
  · intro x hx
    rcases List.mem_append.1 hx with hx | hx
    · obtain ⟨i, hi, hx⟩ := List.mem_flatMap.1 hx
      have hlt := List.mem_range.1 hi
      exact ⟨i, by omega, by omega, hx⟩
    · obtain ⟨i, hi, hx⟩ := List.mem_flatMap.1 hx
      have hlt := List.mem_range'_1.1 hi
      exact ⟨i, by omega, by omega, hx⟩

section OneMore
variable {classes classes' : List ClassInfo} {old new : ModuleTree} {m : Nat}
  {low high : List ClassInfo} {roots : List ModuleRoot}

theorem OneMore.fileSorted (h : OneMore roots c old new m low high) :
    FileSorted (low ++ c :: high) :=
  h.sorted.imp ClassInfo.cmpFile_isLE_of_cmp_isLE

theorem OneMore.mem_iff (h : OneMore roots c old new m low high) (hold : Built roots classes old)
    {d : ClassInfo} : d ∈ low ++ high ↔ d ∈ classes ∧ classKey roots d = classKey roots c := by
  rw [← h.classes_old, hold.mem_get_classes h.lt_size, h.key_eq]

theorem OneMore.countP_same (h : OneMore roots c old new m low high)
    (hold : Built roots classes old) : ((low ++ high).countP fun d => d.file.same c.file) =
      classes.countP fun d => d.file.same c.file := by
  rw [← h.classes_old, hold.get_classes h.lt_size, h.key_eq, (sortClasses_perm _).countP_eq,
    List.countP_filter]
  apply List.countP_congr
  intro d _
  rw [Bool.and_eq_true, decide_eq_true_eq, and_iff_left_iff_imp]
  intro hsame
  exact classKey_congr (Path.same_iff.1 hsame)

theorem OneMore.exists_counted_append (h : OneMore roots c old new m low high)
    (hold : Built roots classes old) (hfile : ∃ d ∈ classes, d.file.same c.file = true)
    (hline : ∀ d ∈ classes, d.file.same c.file = true → d.startLine < c.startLine) :
    ∃ first last f, countedFrom (fun _ => 0) (numberFiles (low ++ high)) = first ++ last ∧
      countedFrom (fun _ => 0) (numberFiles (low ++ c :: high)) =
        first ++ (c, f, classes.countP fun d => d.file.same c.file) :: last ∧
      ∀ e ∈ first ++ last, (e.1.file.components = c.file.components → e.2.1 = f) ∧
        (e.2.1 = f → e.2.2 < classes.countP fun d => d.file.same c.file) := by
  obtain ⟨b, hb, hbc⟩ := hfile
  have hcomponents := Path.same_iff.1 hbc
  have hmem : b ∈ low ++ high := (h.mem_iff hold).2 ⟨hb, classKey_congr hcomponents⟩
  have hhigh : ∀ d ∈ high, d.file.components ≠ c.file.components := by
    intro d hd hdc
    have hlisted := ((h.mem_iff hold).1 (List.mem_append_right low hd)).1
    have hcd := (List.pairwise_cons.1 (List.pairwise_append.1 h.sorted).2.1).1 d hd
    have hle := ClassInfo.startLine_le_of_cmp_isLE hcd hdc.symm
    have hlt := hline d hlisted (Path.same_iff.2 hdc)
    omega
  rw [← h.countP_same hold]
  exact countedFrom_insert_of_mem h.fileSorted ⟨b, hmem, hcomponents⟩ hhigh

theorem OneMore.exists_counted_newFile (h : OneMore roots c old new m low high)
    (hold : Built roots classes old) (hnew : ∀ d ∈ classes, d.file.same c.file = false) :
    ∃ first last f, countedFrom (fun _ => 0) (numberFiles (low ++ high)) = first ++ last ∧
      countedFrom (fun _ => 0) (numberFiles (low ++ c :: high)) =
        first ++ (c, f, 0) :: last.map (fun e => (e.1, e.2.1 + 1, e.2.2)) ∧
      (∀ e ∈ first, e.1.cmpFile c = .lt) ∧
      ∀ e ∈ last, classKey roots e.1 = classKey roots c ∧ c.cmpFile e.1 = .lt := by
  have hne : ∀ d ∈ low ++ high, d.file.components ≠ c.file.components := by
    intro d hd hdc
    have hsame := hnew d ((h.mem_iff hold).1 hd).1
    rw [Path.same_iff.2 hdc] at hsame
    contradiction
  obtain ⟨first, last, f, hcounted, hcounted', hfirst, hlast⟩ :=
    countedFrom_insert_of_not_mem h.fileSorted hne
  refine ⟨first, last, f, hcounted, hcounted', hfirst, ?_⟩
  intro e he
  have hmem := List.mem_map_of_mem (f := fun e => e.1) (List.mem_append_right first he)
  rw [← hcounted, map_fst_countedFrom, map_snd_numberFiles] at hmem
  exact ⟨((h.mem_iff hold).1 hmem).2, hlast e he⟩

/-- Only among the ids of the module of the class can anything change. -/
theorem OneMore.classIds_split (h : OneMore roots c old new m low high)
    (hold : Built roots classes old) (hnew : Built roots classes' new) (moduleFile : String) :
    ∃ first last,
      classIds old moduleFile = first ++ classEntries m (low ++ high) ++ last ∧
      classIds new moduleFile = first ++ classEntries m (low ++ c :: high) ++ last ∧
      ∀ e ∈ first ++ last, classKey roots e.1 ≠ classKey roots c := by
  have hsame : ∀ i < old.size, i ≠ m →
      classEntries i (new.get i).classes = classEntries i (old.get i).classes := by
    intro i hi hne
    rw [h.classes_eq i hi hne]
  obtain ⟨first, last, hf, hg, hothers⟩ := exists_flatMap_range h.lt_size hsame
  refine ⟨first, last, ?_, ?_, ?_⟩
  · rw [classIds_eq hold.linked, hf, h.classes_old]
  · rw [classIds_eq hnew.linked, h.size_eq, hg, h.classes_new]
  · intro e he hkey
    obtain ⟨i, hi, hne, hei⟩ := hothers e he
    have hmem := List.mem_map_of_mem (f := fun e => e.1) hei
    rw [map_fst_classEntries, hold.mem_get_classes hi] at hmem
    rw [hkey, ← h.key_eq] at hmem
    exact hne (hold.get_key_inj h.lt_size hi hmem.2).symm

end OneMore
end Trees
end CodeAtlas
