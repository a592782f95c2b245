import Mathlib.Data.List.Sort
import CodeAtlas.Discovery
import CodeAtlas.Proofs.Files.Following
import CodeAtlas.Proofs.Path.Order

/-!
# Sorting what was found

Of the files that are found at one path, perhaps under several roots, the least is kept. So what is
left does not depend on the order in which files were found, or on how often.
-/
namespace CodeAtlas

theorem transCmp_comap {α β : Type} {cmp : α → α → Ordering} [Std.TransCmp cmp] (f : β → α) :
    Std.TransCmp fun a b => cmp (f a) (f b) where
  eq_swap {a b} := @Std.OrientedCmp.eq_swap α cmp _ (f a) (f b)
  isLE_trans {a b c} := @Std.TransCmp.isLE_trans α cmp _ (f a) (f b) (f c)

namespace Path

instance : Std.TransCmp cmp := transCmp_comap components

theorem cmp_swap (p q : Path) : p.cmp q = (q.cmp p).swap := Std.OrientedCmp.eq_swap

theorem cmp_self (p : Path) : p.cmp p = .eq := Std.ReflCmp.compare_self

theorem components_path {l : Location} (h : ∀ s ∈ l, IsOrdinary s) :
    l.path.components = .root :: l.map .normal := by
  have hnames : (ofNames l).components = l.map .normal := by
    have hdot : "." ∉ l.tail := fun hmem =>
      (isOrdinary_iff_ne.1 (h "." (List.mem_of_mem_tail hmem))).2.1 rfl
    rw [components_ofNames (fun s hs => (h s hs).isName) hdot]
    exact List.map_congr_left fun s hs => (h s hs).ofName_eq
  have htail : (ofNames l).IsTail := by
    intro c hc
    rw [hnames] at hc
    obtain ⟨s, -, rfl⟩ := List.mem_map.1 (List.mem_of_mem_head? hc)
    exact ⟨by simp, by simp⟩
  have hjoin : (Path.mk "/").join (ofNames l) = l.path := by
    rw [join, htail.isAbsolute]
    rfl
  have htop : (Path.mk "/").components = [.root] := by decide
  rw [← hjoin, components_join (by decide) htail, htop, hnames, List.singleton_append]

def IsPlace (p : Path) : Prop := ∃ l : Location, (∀ s ∈ l, IsOrdinary s) ∧ p = l.path

theorem IsPlace.eq_of_cmp {p q : Path} (hp : p.IsPlace) (hq : q.IsPlace) (h : p.cmp q = .eq) :
    p = q := by
  obtain ⟨l, hl, rfl⟩ := hp
  obtain ⟨m, hm, rfl⟩ := hq
  have hcomponents : l.path.components = m.path.components := Std.LawfulEqCmp.eq_of_compare h
  rw [components_path hl, components_path hm, List.cons_eq_cons] at hcomponents
  rw [(List.map_inj_right fun _ _ => Component.normal.inj).1 hcomponents.2]

end Path

namespace FoundFile

instance : Std.TransCmp cmp :=
  have _ : Std.TransCmp fun a b : FoundFile => a.path.cmp b.path := transCmp_comap path
  have _ : Std.TransCmp fun a b : FoundFile => a.root.cmp b.root := transCmp_comap root
  inferInstanceAs (Std.TransCmp (compareLex (fun a b : FoundFile => a.path.cmp b.path)
    (compareLex (fun a b : FoundFile => a.root.cmp b.root)
      (compareOn fun a : FoundFile => a.language.rank))))

theorem isLE_path_of_isLE {a b : FoundFile} (h : (a.cmp b).isLE = true) :
    (a.path.cmp b.path).isLE = true := by
  exact (Ordering.isLE_then_iff_and.1 h).1

theorem isLE_cmp_self (a : FoundFile) : (a.cmp a).isLE = true := by
  have hself : a.cmp a = .eq := Std.ReflCmp.compare_self
  rw [hself]
  rfl

def Before (a b : FoundFile) : Prop := a.path.cmp b.path = .lt

theorem Before.not_before {a b : FoundFile} (h : a.Before b) : ¬ b.Before a := by
  intro h'
  rw [Before, Path.cmp_swap, h] at h'
  exact absurd h' (by decide)

instance : Std.Irrefl Before where
  irrefl _ h := h.not_before h

instance : Std.Antisymm Before where
  antisymm _ _ h h' := absurd h' h.not_before

structure IsPlaced (a : FoundFile) : Prop where
  path : a.path.IsPlace
  root : a.root.IsPlace

theorem IsPlaced.eq_of_cmp {a b : FoundFile} (ha : a.IsPlaced) (hb : b.IsPlaced)
    (h : a.cmp b = .eq) : a = b := by
  rw [cmp, Ordering.then_eq_eq, Ordering.then_eq_eq, compare_eq_iff_eq] at h
  obtain ⟨hpath, hroot, hrank⟩ := h
  have hlanguage : a.language = b.language := by
    revert hrank
    cases a.language <;> cases b.language <;> simp [Language.rank]
  obtain ⟨p, r, l⟩ := a
  obtain ⟨q, r', l'⟩ := b
  rw [mk.injEq]
  exact ⟨ha.path.eq_of_cmp hb.path hpath, ha.root.eq_of_cmp hb.root hroot, hlanguage⟩

end FoundFile

/-- What is left of files in order after a path: the least one of each later path. -/
structure AreFirsts (last : Option Path) (files kept : List FoundFile) : Prop where
  sublist : kept.Sublist files
  ne_last : ∀ a ∈ kept, last ≠ some a.path
  pairwise : kept.Pairwise FoundFile.Before
  exists_le : ∀ b ∈ files, last = some b.path ∨ ∃ a ∈ kept, a.path = b.path ∧ (a.cmp b).isLE = true

theorem areFirsts_firstOfEachPath {files : List FoundFile} (hplaced : ∀ a ∈ files, a.IsPlaced)
    (hsorted : files.Pairwise fun a b => (a.cmp b).isLE = true) (last : Option Path)
    (hlast : ∀ p ∈ last, ∀ a ∈ files, (p.cmp a.path).isLE = true) :
    AreFirsts last files (firstOfEachPath last files) := by
  induction files generalizing last with
  | nil => exact ⟨.refl _, by simp [firstOfEachPath], .nil, by simp⟩
  | cons f files ih =>
    rw [List.pairwise_cons] at hsorted
    have hf : f.IsPlaced := hplaced f List.mem_cons_self
    have hfiles : ∀ a ∈ files, a.IsPlaced := fun a ha => hplaced a (List.mem_cons_of_mem f ha)
    rw [firstOfEachPath]
    split
    next heq =>
      have h := ih hfiles hsorted.2 last fun p hp a ha => hlast p hp a (List.mem_cons_of_mem f ha)
      refine ⟨h.sublist.cons f, h.ne_last, h.pairwise, ?_⟩
      rintro b (_ | ⟨_, hb⟩)
      · exact .inl heq
      · exact h.exists_le b hb
    next hne =>
      have hle : ∀ a ∈ files, (f.path.cmp a.path).isLE = true := fun a ha =>
        FoundFile.isLE_path_of_isLE (hsorted.1 a ha)
      have h := ih hfiles hsorted.2 (some f.path) (by simpa using hle)
      have hlt : ∀ a ∈ firstOfEachPath (some f.path) files, f.Before a := by
        intro a ha
        have hmem := h.sublist.subset ha
        refine (Ordering.isLE_iff_eq_lt_or_eq_eq.1 (hle a hmem)).resolve_right fun heq => ?_
        exact h.ne_last a ha (congrArg some (hf.path.eq_of_cmp (hfiles a hmem).path heq))
      refine ⟨h.sublist.cons_cons f, ?_, List.pairwise_cons.2 ⟨hlt, h.pairwise⟩, ?_⟩
      · rintro a (_ | ⟨_, ha⟩) heq
        · exact hne heq
        · have hback := hlast a.path heq f List.mem_cons_self
          rw [Path.cmp_swap, hlt a ha] at hback
          exact absurd hback (by decide)
      · rintro b (_ | ⟨_, hb⟩)
        · exact .inr ⟨f, List.mem_cons_self, rfl, f.isLE_cmp_self⟩
        · rcases h.exists_le b hb with heq | ⟨a, ha, hpath, hab⟩
          · exact .inr ⟨f, List.mem_cons_self, Option.some.inj heq, hsorted.1 b hb⟩
          · exact .inr ⟨a, List.mem_cons_of_mem f ha, hpath, hab⟩

theorem pairwise_mergeSort_cmp (files : List FoundFile) :
    (files.mergeSort fun a b => (a.cmp b).isLE).Pairwise fun a b => (a.cmp b).isLE = true := by
  refine List.pairwise_mergeSort (fun a b c => Std.TransCmp.isLE_trans) (fun a b => ?_) files
  have hswap : b.cmp a = (a.cmp b).swap := Std.OrientedCmp.eq_swap
  rw [hswap]
  cases a.cmp b <;> rfl

theorem sublist_firstOfEachPath (last : Option Path) (files : List FoundFile) :
    (firstOfEachPath last files).Sublist files := by
  induction files generalizing last with
  | nil => exact .refl _
  | cons f files ih =>
    rw [firstOfEachPath]
    split
    · exact (ih last).cons f
    · exact (ih _).cons_cons f

theorem pairwise_sortFound (files : List FoundFile) :
    (sortFound files).Pairwise fun a b => (a.path.cmp b.path).isLE = true :=
  ((pairwise_mergeSort_cmp files).sublist (sublist_firstOfEachPath none _)).imp
    FoundFile.isLE_path_of_isLE

theorem mem_of_mem_sortFound {files : List FoundFile} {a : FoundFile} (h : a ∈ sortFound files) :
    a ∈ files :=
  List.mem_mergeSort.1 ((sublist_firstOfEachPath none _).subset h)

section Placed
variable {files : List FoundFile} (hplaced : ∀ a ∈ files, a.IsPlaced)
include hplaced

theorem areFirsts_sortFound :
    AreFirsts none (files.mergeSort fun a b => (a.cmp b).isLE) (sortFound files) :=
  areFirsts_firstOfEachPath (fun a ha => hplaced a (List.mem_mergeSort.1 ha))
    (pairwise_mergeSort_cmp files) none (by simp)

theorem pairwise_before_sortFound : (sortFound files).Pairwise FoundFile.Before :=
  (areFirsts_sortFound hplaced).pairwise

theorem nodup_path_sortFound : ((sortFound files).map FoundFile.path).Nodup := by
  rw [List.Nodup, List.pairwise_map]
  refine (pairwise_before_sortFound hplaced).imp fun {a b} hbefore heq => ?_
  rw [FoundFile.Before, heq, Path.cmp_self] at hbefore
  exact absurd hbefore (by decide)

theorem exists_mem_sortFound {b : FoundFile} (hb : b ∈ files) :
    ∃ a ∈ sortFound files, a.path = b.path ∧ (a.cmp b).isLE = true := by
  simpa using (areFirsts_sortFound hplaced).exists_le b (List.mem_mergeSort.2 hb)

/-- What is left of the files at a path is the least. -/
theorem mem_sortFound_iff {a : FoundFile} : a ∈ sortFound files ↔
    a ∈ files ∧ ∀ b ∈ files, b.path = a.path → (a.cmp b).isLE = true := by
  constructor
  · refine fun ha => ⟨mem_of_mem_sortFound ha, fun b hb hpath => ?_⟩
    obtain ⟨c, hc, hcpath, hcb⟩ := exists_mem_sortFound hplaced hb
    rwa [List.inj_on_of_nodup_map (nodup_path_sortFound hplaced) hc ha (hcpath.trans hpath)] at hcb
  · rintro ⟨ha, hleast⟩
    obtain ⟨c, hc, hpath, hca⟩ := exists_mem_sortFound hplaced ha
    have hcmem := mem_of_mem_sortFound hc
    have heq := Std.OrientedCmp.isLE_antisymm hca (hleast c hcmem hpath)
    rwa [← (hplaced c hcmem).eq_of_cmp (hplaced a ha) heq]

end Placed

theorem sortFound_congr {files files' : List FoundFile} (hplaced : ∀ a ∈ files, a.IsPlaced)
    (h : ∀ a, a ∈ files' ↔ a ∈ files) : sortFound files' = sortFound files := by
  have hplaced' : ∀ a ∈ files', a.IsPlaced := fun a ha => hplaced a ((h a).1 ha)
  refine (pairwise_before_sortFound hplaced').eq_of_mem_iff (pairwise_before_sortFound hplaced) ?_
  intro a
  simp only [mem_sortFound_iff hplaced, mem_sortFound_iff hplaced', h]

end CodeAtlas
