import Mathlib.Data.List.Sort
import Mathlib.Data.String.Basic
import CodeAtlas.Files.Tree
import CodeAtlas.Proofs.Path.Names

namespace CodeAtlas

theorem nodup_eraseDups {α : Type} [BEq α] [LawfulBEq α] (xs : List α) : xs.eraseDups.Nodup := by
  match xs with
  | [] => simp
  | x :: xs =>
    rw [List.eraseDups_cons, List.nodup_cons]
    refine ⟨?_, nodup_eraseDups _⟩
    simp
termination_by xs.length
decreasing_by
  rw [List.length_cons]
  exact Nat.lt_succ_of_le (List.length_filter_le _ _)

namespace FileEntry

def shape : FileEntry → FileEntry
  | directory => directory
  | file _ => file (.text "")
  | link target => link target

theorem shape_eq_directory {e : FileEntry} : e.shape = directory ↔ e = directory := by
  cases e <;> simp [shape]

theorem shape_eq_link {e : FileEntry} {q : Path} : e.shape = link q ↔ e = link q := by
  cases e <;> simp [shape]

theorem shape_eq_file {e : FileEntry} {c : FileContent} :
    e.shape = (file c).shape ↔ ∃ c', e = file c' := by
  cases e <;> simp [shape]

end FileEntry

namespace FileTree

variable {t : FileTree}

theorem isDirectory_iff {l : Location} : t.isDirectory l = true ↔ t.find? l = some .directory :=
  decide_eq_true_iff

@[simp] theorem isDirectory_nil : t.isDirectory [] = true := isDirectory_iff.2 rfl

theorem mem_entries_of_find? {l : Location} {e : FileEntry} (h : t.find? l = some e) (hl : l ≠ []) :
    (l, e) ∈ t.entries := by
  rw [find?, List.isEmpty_eq_false_iff.2 hl, if_neg Bool.false_ne_true] at h
  obtain ⟨before, after, hentries, -⟩ := List.lookup_eq_some_iff.1 h
  simp [hentries]

theorem exists_find?_of_mem {l : Location} {e : FileEntry} (h : (l, e) ∈ t.entries) :
    ∃ e', t.find? l = some e' := by
  rw [find?]
  split
  · exact ⟨.directory, rfl⟩
  · rw [← Option.isSome_iff_exists, Option.isSome_iff_ne_none, Ne, List.lookup_eq_none_iff]
    intro hnone
    simpa using hnone (l, e) h

structure WellFormed (t : FileTree) : Prop where
  isDirectory_dropLast : ∀ e ∈ t.entries, t.isDirectory e.1.dropLast = true
  isOrdinary : ∀ e ∈ t.entries, ∀ s ∈ e.1, IsOrdinary s

namespace WellFormed

variable (ht : t.WellFormed)
include ht

theorem isOrdinary_of_find? {l : Location} {e : FileEntry} (h : t.find? l = some e) :
    ∀ s ∈ l, IsOrdinary s := by
  by_cases hl : l = []
  · simp [hl]
  · exact ht.isOrdinary _ (mem_entries_of_find? h hl)

theorem isDirectory_of_find?_concat {l : Location} {s : String} {e : FileEntry}
    (h : t.find? (l ++ [s]) = some e) : t.isDirectory l = true := by
  simpa using ht.isDirectory_dropLast _ (mem_entries_of_find? h (by simp))

theorem isDirectory_of_find?_append {l m : Location} {e : FileEntry}
    (h : t.find? (l ++ m) = some e) (hm : m ≠ []) : t.isDirectory l = true := by
  induction m using List.reverseRecOn generalizing e with
  | nil => exact absurd rfl hm
  | append_singleton m s ih =>
    rw [← List.append_assoc] at h
    have hdir := ht.isDirectory_of_find?_concat h
    by_cases hnil : m = []
    · rwa [hnil, List.append_nil] at hdir
    · exact ih (isDirectory_iff.1 hdir) hnil

theorem isDirectory_of_dropLast {l : Location} (h : t.isDirectory l = true) :
    t.isDirectory l.dropLast = true := by
  cases l using List.reverseRecOn with
  | nil => exact h
  | append_singleton l s =>
    rw [List.dropLast_concat]
    exact ht.isDirectory_of_find?_concat (isDirectory_iff.1 h)

theorem find?_append_eq_none {l : Location} (h : t.find? l = none) (m : Location) :
    t.find? (l ++ m) = none := by
  by_contra hsome
  obtain ⟨e, he⟩ := Option.ne_none_iff_exists'.1 hsome
  by_cases hm : m = []
  · simp [hm, h] at he
  · have hdir := isDirectory_iff.1 (ht.isDirectory_of_find?_append he hm)
    simp [h] at hdir

end WellFormed

theorem mem_childNames {l : Location} {s : String} :
    s ∈ t.childNames l ↔ (t.find? (l ++ [s])).isSome = true := by
  rw [childNames, List.mem_mergeSort, List.mem_eraseDups, List.mem_filterMap,
    Option.isSome_iff_exists]
  constructor
  · rintro ⟨⟨m, e⟩, hmem, hs⟩
    simp only [Option.ite_none_right_eq_some] at hs
    obtain ⟨hl, hlast⟩ := hs
    rw [← hl, List.dropLast_append_getLast? s hlast]
    exact exists_find?_of_mem hmem
  · rintro ⟨e, he⟩
    refine ⟨(l ++ [s], e), mem_entries_of_find? he (by simp), ?_⟩
    simp

theorem pairwise_childNames (l : Location) : (t.childNames l).Pairwise (· < ·) := by
  have hsorted : (t.childNames l).Pairwise (· ≤ ·) := by
    have h : (t.childNames l).Pairwise fun a b => decide (a ≤ b) = true :=
      List.pairwise_mergeSort (by simpa using fun a b c => le_trans) (by simpa using le_total) _
    simpa using h
  have hnodup : (t.childNames l).Nodup := by
    rw [childNames, (List.mergeSort_perm _ _).nodup_iff]
    exact nodup_eraseDups _
  exact (hsorted.and hnodup).imp fun h => lt_of_le_of_ne h.1 h.2

/-- The names below a location of a tree are those of a larger one that are there. -/
theorem childNames_eq_filter {u : FileTree} {l : Location}
    (h : ∀ s, (t.find? (l ++ [s])).isSome = true → (u.find? (l ++ [s])).isSome = true) :
    t.childNames l = (u.childNames l).filter fun s => (t.find? (l ++ [s])).isSome := by
  refine List.Pairwise.eq_of_mem_iff (pairwise_childNames l) ((pairwise_childNames l).filter _) ?_
  intro s
  rw [List.mem_filter, mem_childNames, mem_childNames]
  exact ⟨fun hs => ⟨h s hs, hs⟩, fun hs => hs.2⟩

end FileTree
end CodeAtlas
