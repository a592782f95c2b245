import CodeAtlas.Module.Aggregation
import CodeAtlas.Proofs.Path.Order

namespace CodeAtlas

section Sorting
variable {α : Type} {le : α → α → Bool}
  (trans : ∀ a b c, le a b = true → le b c = true → le a c = true)
  (total : ∀ a b, (le a b || le b a) = true)
include trans total

theorem mergeSort_cons_eq (a : α) (xs : List α) : (a :: xs).mergeSort le =
    (xs.mergeSort le).filter (fun b => !le a b) ++ a :: (xs.mergeSort le).filter (le a) := by
  obtain ⟨low, high, hcons, hxs, hlow⟩ := List.mergeSort_cons trans total a xs
  have hhigh : ∀ b ∈ high, le a b = true := by
    have hsorted := List.pairwise_mergeSort trans total (a :: xs)
    rw [hcons, List.pairwise_append, List.pairwise_cons] at hsorted
    exact hsorted.2.1.1
  have hlow' : ∀ b ∈ low, le a b = false := by
    intro b hb
    simpa using hlow b hb
  have hdown : (low ++ high).filter (fun b => !le a b) = low := by
    rw [List.filter_append, List.filter_eq_self.2 hlow, List.filter_eq_nil_iff.2, List.append_nil]
    intro b hb
    simp [hhigh b hb]
  have hup : (low ++ high).filter (le a) = high := by
    rw [List.filter_append, List.filter_eq_self.2 hhigh, List.filter_eq_nil_iff.2, List.nil_append]
    intro b hb
    simp [hlow' b hb]
  rw [hcons, hxs, hdown, hup]

theorem exists_mergeSort_insert (before after : List α) (c : α) :
    ∃ low high, (before ++ after).mergeSort le = low ++ high ∧
      (before ++ c :: after).mergeSort le = low ++ c :: high := by
  induction before with
  | nil =>
    obtain ⟨low, high, hcons, hafter, -⟩ := List.mergeSort_cons trans total c after
    exact ⟨low, high, hafter, hcons⟩
  | cons b before ih =>
    obtain ⟨low, high, hold, hnew⟩ := ih
    rw [List.cons_append, List.cons_append, mergeSort_cons_eq trans total b,
      mergeSort_cons_eq trans total b, hold, hnew]
    simp only [List.filter_append, List.filter_cons]
    cases le b c with
    | true =>
      refine ⟨low.filter (fun x => !le b x) ++ high.filter (fun x => !le b x) ++
        b :: low.filter (le b), high.filter (le b), ?_, ?_⟩
      · simp
      · simp
    | false =>
      refine ⟨low.filter (fun x => !le b x), high.filter (fun x => !le b x) ++
        b :: (low.filter (le b) ++ high.filter (le b)), ?_, ?_⟩
      · simp
      · simp

end Sorting

namespace ClassInfo

def cmp (a b : ClassInfo) : Ordering := cmpClasses (a.file.components, a) (b.file.components, b)

def cmpFile (a b : ClassInfo) : Ordering := Path.cmp a.file b.file

instance : Std.TransCmp cmpFile where
  eq_swap {a _} := @Std.OrientedCmp.eq_swap _ Path.cmpComponents _ a.file.components _
  isLE_trans {a _ _} := @Std.TransCmp.isLE_trans _ Path.cmpComponents _ a.file.components _ _

instance : Std.TransCmp cmp :=
  inferInstanceAs (Std.TransCmp (compareLex cmpFile <| compareLex (compareOn startLine) <|
    compareLex (compareOn name) <| compareLex (compareOn endLine) <|
      compareLex (compareOn loc) (compareOn methodCount)))

theorem cmpFile_isLE_of_cmp_isLE {a b : ClassInfo} (h : (a.cmp b).isLE = true) :
    (a.cmpFile b).isLE = true := by
  cases hfile : a.cmpFile b with
  | gt =>
    have hgt : a.cmp b = .gt := by
      rw [cmpFile, Path.cmp] at hfile
      simp only [cmp, cmpClasses, hfile, Ordering.then_eq_gt, true_or]
    simp [hgt] at h
  | _ => rfl

theorem startLine_le_of_cmp_isLE {a b : ClassInfo} (h : (a.cmp b).isLE = true)
    (hfile : a.file.components = b.file.components) : a.startLine ≤ b.startLine := by
  have heq : Path.cmpComponents a.file.components b.file.components = .eq := by
    rw [hfile]
    exact Std.ReflCmp.compare_self
  by_contra hlt
  have hline : compare a.startLine b.startLine = .gt := Nat.compare_eq_gt.2 (Nat.not_le.1 hlt)
  have hgt : a.cmp b = .gt := by
    simp only [cmp, cmpClasses, heq, hline, Ordering.then_eq_gt, true_and, true_or, or_true]
  simp [hgt] at h

end ClassInfo

theorem sortClasses_eq (cs : List ClassInfo) :
    sortClasses cs = cs.mergeSort fun a b => (a.cmp b).isLE := by
  have hmap := @List.map_mergeSort _ _ (fun a b : ClassInfo => (a.cmp b).isLE)
    (fun a b => (cmpClasses a b).isLE) (fun c => (c.file.components, c)) cs fun _ _ _ _ => rfl
  rw [sortClasses, ← hmap, List.map_map]
  exact List.map_id _

theorem cmp_isLE_trans (a b c : ClassInfo) (hab : (a.cmp b).isLE = true)
    (hbc : (b.cmp c).isLE = true) : (a.cmp c).isLE = true :=
  Std.TransCmp.isLE_trans hab hbc

theorem cmp_isLE_total (a b : ClassInfo) : ((a.cmp b).isLE || (b.cmp a).isLE) = true := by
  rw [@Std.OrientedCmp.eq_swap _ ClassInfo.cmp _ b a]
  cases a.cmp b <;> rfl

theorem pairwise_sortClasses (cs : List ClassInfo) :
    (sortClasses cs).Pairwise fun a b => (a.cmp b).isLE = true := by
  rw [sortClasses_eq]
  exact List.pairwise_mergeSort cmp_isLE_trans cmp_isLE_total cs

theorem exists_sortClasses_insert (before after : List ClassInfo) (c : ClassInfo) :
    ∃ low high, sortClasses (before ++ after) = low ++ high ∧
      sortClasses (before ++ c :: after) = low ++ c :: high := by
  simp only [sortClasses_eq]
  exact exists_mergeSort_insert cmp_isLE_trans cmp_isLE_total before after c

end CodeAtlas
