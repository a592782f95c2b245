import Mathlib.Data.List.Induction
import Mathlib.Data.List.Lex
import Mathlib.Data.List.Sort
import Mathlib.Data.String.Basic
import CodeAtlas.Module.Key

namespace CodeAtlas

theorem compare_string_eq_lt {s t : String} : compare s t = .lt ↔ s < t :=
  compareOfLessAndEq_eq_lt

namespace ModuleKey

theorem cmp_eq_lt {a b : ModuleKey} : cmp a b = .lt ↔ a < b := by
  induction a generalizing b with
  | nil => cases b <;> simp [cmp]
  | cons s a ih =>
    cases b with
    | nil => simp [cmp]
    | cons t b =>
      simp only [cmp, Ordering.then_eq_lt, compare_string_eq_lt, compare_eq_iff_eq, ih,
        List.cons_lt_cons_iff]

theorem cmp_eq_eq {a b : ModuleKey} : cmp a b = .eq ↔ a = b := by
  induction a generalizing b with
  | nil => cases b <;> simp [cmp]
  | cons s a ih =>
    cases b with
    | nil => simp [cmp]
    | cons t b => simp only [cmp, Ordering.then_eq_eq, compare_eq_iff_eq, ih, List.cons.injEq]

theorem cmp_eq_gt {a b : ModuleKey} : cmp a b = .gt ↔ b < a := by
  have hlt := cmp_eq_lt (a := a) (b := b)
  have heq := cmp_eq_eq (a := a) (b := b)
  rcases lt_trichotomy a b with h | rfl | h
  · simp [hlt.2 h, h.asymm]
  · simp [heq.2 rfl]
  · cases hc : cmp a b with
    | lt => exact absurd (hlt.1 hc) h.asymm
    | eq => exact absurd (heq.1 hc) h.ne'
    | gt => simp [h]

theorem cmp_isLE {a b : ModuleKey} : (cmp a b).isLE = true ↔ a ≤ b := by
  rw [← not_lt, ← cmp_eq_gt]
  cases cmp a b <;> simp

instance : Std.OrientedCmp cmp where
  eq_swap {a b} := by
    rcases lt_trichotomy a b with h | rfl | h
    · rw [cmp_eq_lt.2 h, cmp_eq_gt.2 h]; rfl
    · rw [cmp_eq_eq.2 rfl]; rfl
    · rw [cmp_eq_gt.2 h, cmp_eq_lt.2 h]; rfl

instance : Std.TransCmp cmp where
  isLE_trans hab hbc := cmp_isLE.2 ((cmp_isLE.1 hab).trans (cmp_isLE.1 hbc))

instance : Std.LawfulEqCmp cmp where
  eq_of_compare h := cmp_eq_eq.1 h

theorem append_singleton_lt {a : ModuleKey} {s t : String} : a ++ [s] < a ++ [t] ↔ s < t := by
  induction a with
  | nil => simp only [List.nil_append, List.cons_lt_cons_iff, List.lt_irrefl, and_false, or_false]
  | cons u a ih =>
    rw [List.cons_append, List.cons_append, List.cons_lt_cons_iff, ih]
    simp

theorem lt_of_isPrefix {a b : ModuleKey} (h : a <+: b) (hne : a ≠ b) : a < b := by
  obtain ⟨rest, rfl⟩ := h
  induction a with
  | nil =>
    cases rest with
    | nil => exact absurd rfl hne
    | cons => exact List.nil_lt_cons _ _
  | cons s a ih =>
    rw [List.cons_append, List.cons_lt_cons_iff]
    exact Or.inr ⟨rfl, ih fun h => hne (by rw [List.cons_append, ← h])⟩

/-- Two keys of which neither begins the other keep their order when they are continued. -/
theorem lt_of_lt_of_isPrefix {a b x y : ModuleKey} (h : a < b) (hab : ¬ a <+: b)
    (hx : a <+: x) (hy : b <+: y) : x < y := by
  obtain ⟨x, rfl⟩ := hx
  obtain ⟨y, rfl⟩ := hy
  induction a generalizing b with
  | nil => exact absurd List.nil_prefix hab
  | cons s a ih =>
    cases b with
    | nil => simp at h
    | cons t b =>
      rw [List.cons_lt_cons_iff] at h
      rw [List.cons_append, List.cons_append, List.cons_lt_cons_iff]
      rcases h with h | ⟨rfl, h⟩
      · exact Or.inl h
      · exact Or.inr ⟨rfl, ih h fun hp => hab (List.cons_prefix_cons.2 ⟨rfl, hp⟩)⟩

end ModuleKey

/-- The elements in the given order, each once; of equal elements the first is kept. -/
def sortedSet {α : Type} (cmp : α → α → Ordering) (xs : List α) : List α :=
  xs.foldl (fun kept a => insertInOrder cmp a kept) []

def Ascending {α : Type} (cmp : α → α → Ordering) (xs : List α) : Prop :=
  xs.Pairwise fun a b => cmp a b = .lt

section Sets
variable {α : Type} {cmp : α → α → Ordering}

theorem mem_of_mem_insertInOrder {a x : α} {xs : List α} (h : x ∈ insertInOrder cmp a xs) :
    x = a ∨ x ∈ xs := by
  induction xs with
  | nil => simpa [insertInOrder] using h
  | cons b xs ih =>
    simp only [insertInOrder] at h
    split at h
    · simpa using h
    · exact Or.inr h
    · rcases List.mem_cons.1 h with rfl | h
      · simp
      · exact (ih h).imp_right (List.mem_cons_of_mem _)

theorem mem_insertInOrder [Std.LawfulEqCmp cmp] {a x : α} {xs : List α} :
    x ∈ insertInOrder cmp a xs ↔ x = a ∨ x ∈ xs := by
  refine ⟨mem_of_mem_insertInOrder, fun h => ?_⟩
  induction xs with
  | nil => simpa [insertInOrder] using h
  | cons b xs ih =>
    simp only [insertInOrder]
    split
    · simpa using h
    next heq =>
      have hab : a = b := Std.LawfulEqCmp.eq_of_compare heq
      subst hab
      simpa using h
    · rcases h with rfl | h
      · exact List.mem_cons_of_mem _ (ih (Or.inl rfl))
      · rcases List.mem_cons.1 h with rfl | h
        · simp
        · exact List.mem_cons_of_mem _ (ih (Or.inr h))

theorem ascending_insertInOrder [Std.TransCmp cmp] (a : α) {xs : List α} (h : Ascending cmp xs) :
    Ascending cmp (insertInOrder cmp a xs) := by
  induction xs with
  | nil => simp [insertInOrder, Ascending]
  | cons b xs ih =>
    obtain ⟨hb, hxs⟩ := List.pairwise_cons.1 h
    simp only [insertInOrder]
    split
    next hab =>
      refine List.pairwise_cons.2 ⟨fun x hx => ?_, h⟩
      rcases List.mem_cons.1 hx with rfl | hx
      · exact hab
      · exact Std.TransCmp.lt_trans hab (hb x hx)
    · exact h
    next hab =>
      refine List.pairwise_cons.2 ⟨fun x hx => ?_, ih hxs⟩
      rcases mem_of_mem_insertInOrder hx with rfl | hx
      · exact Std.OrientedCmp.gt_iff_lt.1 hab
      · exact hb x hx

theorem sortedSet_concat (xs : List α) (a : α) :
    sortedSet cmp (xs ++ [a]) = insertInOrder cmp a (sortedSet cmp xs) := by
  simp [sortedSet, List.foldl_append]

theorem mem_of_mem_sortedSet {x : α} {xs : List α} (h : x ∈ sortedSet cmp xs) : x ∈ xs := by
  induction xs using List.reverseRecOn with
  | nil => simp [sortedSet] at h
  | append_singleton xs a ih =>
    rw [sortedSet_concat] at h
    rcases mem_of_mem_insertInOrder h with rfl | h
    · simp
    · exact List.mem_append_left _ (ih h)

theorem insertInOrder_ne_nil (a : α) (xs : List α) : insertInOrder cmp a xs ≠ [] := by
  cases xs with
  | nil => simp [insertInOrder]
  | cons b xs =>
    rw [insertInOrder]
    split <;> simp

theorem sortedSet_eq_nil {xs : List α} : sortedSet cmp xs = [] ↔ xs = [] := by
  constructor
  · intro h
    rcases List.eq_nil_or_concat xs with rfl | ⟨xs, a, rfl⟩
    · rfl
    · rw [List.concat_eq_append, sortedSet_concat] at h
      exact absurd h (insertInOrder_ne_nil a _)
  · rintro rfl
    rfl

theorem mem_sortedSet [Std.LawfulEqCmp cmp] {x : α} {xs : List α} :
    x ∈ sortedSet cmp xs ↔ x ∈ xs := by
  induction xs using List.reverseRecOn with
  | nil => simp [sortedSet]
  | append_singleton xs a ih => simp [sortedSet_concat, mem_insertInOrder, ih, or_comm]

theorem ascending_sortedSet [Std.TransCmp cmp] (xs : List α) :
    Ascending cmp (sortedSet cmp xs) := by
  induction xs using List.reverseRecOn with
  | nil => exact List.Pairwise.nil
  | append_singleton xs a ih =>
    rw [sortedSet_concat]
    exact ascending_insertInOrder a ih

theorem sortedSet_congr [Std.TransCmp cmp] [Std.LawfulEqCmp cmp] {xs ys : List α}
    (h : ∀ x, x ∈ xs ↔ x ∈ ys) : sortedSet cmp xs = sortedSet cmp ys := by
  have hirrefl : Std.Irrefl fun a b => cmp a b = .lt := by
    constructor
    intro a ha
    rw [@Std.ReflCmp.compare_self _ cmp] at ha
    contradiction
  have hantisymm : Std.Antisymm fun a b => cmp a b = .lt := by
    constructor
    intro a b hab hba
    rw [@Std.OrientedCmp.eq_swap _ cmp, hba] at hab
    contradiction
  apply List.Pairwise.eq_of_mem_iff (ascending_sortedSet xs) (ascending_sortedSet ys)
  intro x
  rw [mem_sortedSet, mem_sortedSet, h]

end Sets
end CodeAtlas
