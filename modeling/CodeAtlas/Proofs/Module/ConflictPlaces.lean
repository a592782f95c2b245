import CodeAtlas.Proofs.Module.Conflicts
import CodeAtlas.Proofs.Module.InputOrder

/-!
# The places of conflicts

A warning about a module that holds classes stands at the first of their directories in order. One
about a module without classes of its own stands at its names as they are spelled on the way to the
first class below it, and which class is listed first makes a difference there. Nothing else in the
warnings depends on the order of the classes.
-/
namespace CodeAtlas
open Slots

theorem map_insertInOrder {α β : Type} {cmp : α → α → Ordering} {cmp' : β → β → Ordering}
    {f : α → β} (h : ∀ a b, cmp a b = cmp' (f a) (f b)) (a : α) (xs : List α) :
    (insertInOrder cmp a xs).map f = insertInOrder cmp' (f a) (xs.map f) := by
  induction xs with
  | nil => rfl
  | cons b xs ih =>
    rw [insertInOrder, List.map_cons, insertInOrder, ← h]
    cases cmp a b with
    | lt => rfl
    | eq => rfl
    | gt => rw [List.map_cons, ih]

theorem map_sortedSet {α β : Type} {cmp : α → α → Ordering} {cmp' : β → β → Ordering} {f : α → β}
    (h : ∀ a b, cmp a b = cmp' (f a) (f b)) (xs : List α) :
    (sortedSet cmp xs).map f = sortedSet cmp' (xs.map f) := by
  induction xs using List.reverseRecOn with
  | nil => rfl
  | append_singleton xs a ih =>
    rw [sortedSet_concat, map_insertInOrder h, ih, List.map_append, List.map_singleton,
      sortedSet_concat]

theorem Slot.conflictMessage_congr {s t : Slot} (hspellings : s.spellings = t.spellings)
    (hname : s.name = t.name) : s.conflictMessage = t.conflictMessage := by
  delta conflictMessage
  rw [hspellings, hname]

section Slots
variable {roots : List ModuleRoot} {cs ds : List ClassInfo} {k : ModuleKey}

theorem dirs_slotOf (files : List SourceFile) : (slotOf roots files cs k).dirs =
    sortedSet Path.cmp ((cs.filter fun c => classKey roots c = k).map fun c =>
      c.file.parent?.getD ⟨""⟩) := by
  simp only [slotOf, slotAfter, List.filter_map, List.map_map]
  rfl

theorem dirs_slotOf_eq_nil {files : List SourceFile} :
    (slotOf roots files cs k).dirs = [] ↔ ∀ c ∈ cs, classKey roots c ≠ k := by
  simp only [dirs_slotOf, sortedSet_eq_nil, List.map_eq_nil_iff, List.filter_eq_nil_iff,
    decide_eq_true_eq]

/-- The directories of a module are in one order however its classes are listed. -/
theorem dirs_components_of_perm (h : cs.Perm ds) (files : List SourceFile) :
    (slotOf roots files cs k).dirs.map Path.components =
      (slotOf roots files ds k).dirs.map Path.components := by
  have hcmp : ∀ a b, Path.cmp a b = Path.cmpComponents a.components b.components :=
    fun _ _ => rfl
  rw [dirs_slotOf, dirs_slotOf, map_sortedSet hcmp, map_sortedSet hcmp]
  exact sortedSet_congr fun x => (((h.filter _).map _).map _).mem_iff

/-- Below the top, a slot is spelled as on the way to the first class below it. -/
theorem exists_names_slotOf (files : List SourceFile) (h : k ∈ moduleKeys roots cs)
    (hne : k ≠ topKey roots) : ∃ c, (classesThrough roots cs k).head? = some c ∧
      (slotOf roots files cs k).names = namesTo roots k c := by
  have hk := ((moduleKeys_treeKeys roots cs).top_isPrefix k h).length_le
  obtain ⟨c, hc, -, hthrough⟩ := (mem_moduleKeys.1 h).resolve_left hne
  obtain ⟨first, rest, hclasses⟩ :=
    List.exists_cons_of_ne_nil (List.ne_nil_of_mem (mem_classesThrough.2 ⟨hc, hthrough⟩))
  refine ⟨first, by rw [hclasses, List.head?_cons], ?_⟩
  have hnames : (slotOf roots files cs k).names =
      ((met (ModuleRoot.topNames roots) (cs.map (Placement.ofClass roots))).filter fun names =>
        ModuleKey.ofNames names = k).head?.getD [] := rfl
  rw [hnames, filter_met hk, if_neg hne.symm, List.nil_append, hclasses, List.map_cons,
    List.head?_cons, Option.getD_some]

/-- Where a module has directories, the first of them in order is the same in any order of the
classes, and where it has none, its names are those on the way to the first class below it. -/
theorem conflictPlace_of_perm (h : cs.Perm ds) (files : List SourceFile)
    (hk : k ∈ moduleKeys roots cs) (hne : k ≠ topKey roots) :
    (((slotOf roots files cs k).dirs.head?.getD
        (Path.ofNames (slotOf roots files cs k).names)).components =
      ((slotOf roots files ds k).dirs.head?.getD
        (Path.ofNames (slotOf roots files ds k).names)).components) ∨
      (∀ c ∈ cs, classKey roots c ≠ k) ∧ ∃ c d, (classesThrough roots cs k).head? = some c ∧
        (classesThrough roots ds k).head? = some d ∧
        (slotOf roots files cs k).dirs.head?.getD (Path.ofNames (slotOf roots files cs k).names) =
          Path.ofNames (namesTo roots k c) ∧
        (slotOf roots files ds k).dirs.head?.getD (Path.ofNames (slotOf roots files ds k).names) =
          Path.ofNames (namesTo roots k d) := by
  have hhead : (slotOf roots files cs k).dirs.head?.map Path.components =
      (slotOf roots files ds k).dirs.head?.map Path.components := by
    rw [← List.head?_map, ← List.head?_map, dirs_components_of_perm h]
  cases hdir : (slotOf roots files cs k).dirs.head? with
  | some dir =>
    rw [hdir, Option.map_some, eq_comm, Option.map_eq_some_iff] at hhead
    obtain ⟨dir', hdir', hcomponents⟩ := hhead
    left
    rw [hdir', Option.getD_some, Option.getD_some, hcomponents]
  | none =>
    rw [hdir, Option.map_none, eq_comm, Option.map_eq_none_iff] at hhead
    obtain ⟨c, hc, hnames⟩ := exists_names_slotOf files hk hne
    obtain ⟨d, hd, hnames'⟩ :=
      exists_names_slotOf files ((sameNames_of_perm h roots).moduleKeys_eq ▸ hk) hne
    refine Or.inr ⟨dirs_slotOf_eq_nil.1 (List.head?_eq_none_iff.1 hdir), c, d, hc, hd, ?_, ?_⟩
    · rw [Option.getD_none, hnames]
    · rw [hhead, Option.getD_none, hnames']

end Slots

/-- Whether warnings about two listings of the classes are alike but for their places, where a
module without classes of its own goes by the first class of each listing. -/
structure Warning.Alike (roots : List ModuleRoot) (cs ds : List ClassInfo) (v w : Warning) :
    Prop where
  kind : v.kind = w.kind
  line : v.line = w.line
  message : v.message = w.message
  path : v.path.components = w.path.components ∨ ∃ k, (∀ c ∈ cs, classKey roots c ≠ k) ∧
    ∃ c d, (classesThrough roots cs k).head? = some c ∧
      (classesThrough roots ds k).head? = some d ∧
      v.path = Path.ofNames (namesTo roots k c) ∧ w.path = Path.ofNames (namesTo roots k d)

/-- Slots filled in two orders tell of alike conflicts or of none. -/
theorem conflict?_slotOf_of_perm {roots : List ModuleRoot} {cs ds : List ClassInfo}
    (h : cs.Perm ds) (files : List SourceFile) {k : ModuleKey} (hk : k ∈ moduleKeys roots cs) :
    Option.Rel (Warning.Alike roots cs ds) (slotOf roots files cs k).conflict?
      (slotOf roots files ds k).conflict? := by
  have hsame := sameNames_of_perm h roots
  have hspellings := hsame.spellings_eq files k
  have hmerged : (slotOf roots files ds k).isMerged = (slotOf roots files cs k).isMerged := by
    rw [Slot.isMerged, Slot.isMerged, hspellings]
  cases hm : (slotOf roots files cs k).isMerged with
  | false =>
    rw [Slot.conflict?, Slot.conflict?, hmerged, hm]
    exact .none
  | true =>
    have hne := ne_topKey_of_spellingsOf ((isMerged_slotOf files hk).1 hm)
    have hmessage : (slotOf roots files cs k).conflictMessage =
        (slotOf roots files ds k).conflictMessage :=
      Slot.conflictMessage_congr hspellings (hsame.name_eq files hk)
    rw [Slot.conflict?_eq_some hm, Slot.conflict?_eq_some (hmerged.trans hm)]
    exact .some ⟨rfl, rfl, hmessage, (conflictPlace_of_perm h files hk hne).imp_right fun h => ⟨k, h⟩⟩

/-- In whatever order the classes are listed, the same conflicts are told in the same order. -/
theorem conflicts_unordered (rootPaths : List Path) (files : List SourceFile)
    {cs ds : List ClassInfo} (h : cs.Perm ds) :
    List.Forall₂ (Warning.Alike (ModuleRoot.ofPaths rootPaths) cs ds)
      (aggregate rootPaths files cs).warnings (aggregate rootPaths files ds).warnings := by
  rw [aggregate_warnings, aggregate_warnings, ← (sameNames_of_perm h _).moduleKeys_eq]
  refine List.rel_filterMap (R := fun k k' => k = k' ∧ k ∈ moduleKeys _ cs) ?_
    (List.forall₂_same.2 fun k hk => ⟨rfl, hk⟩)
  rintro k _ ⟨rfl, hk⟩
  exact conflict?_slotOf_of_perm h files hk

/-- One module has classes in `/r/M` and `/r/m`, one only below `/r/P` and `/r/p`. -/
theorem conflicts_unordered_reverse :
    let classes : List ClassInfo :=
      [⟨"A", ⟨"/r/m/a.py"⟩, 1, 0, 1, 1⟩, ⟨"B", ⟨"/r/M/b.py"⟩, 1, 0, 1, 1⟩,
        ⟨"C", ⟨"/r/P/x/c.py"⟩, 1, 0, 1, 1⟩, ⟨"D", ⟨"/r/p/y/d.py"⟩, 1, 0, 1, 1⟩]
    let warningsOf := fun classes => (aggregate [⟨"/r"⟩] [] classes).warnings
    classes.Perm classes.reverse ∧ (warningsOf classes).length = 2 ∧
      List.Forall₂ (Warning.Alike (ModuleRoot.ofPaths [⟨"/r"⟩]) classes classes.reverse)
        (warningsOf classes) (warningsOf classes.reverse) := by
  intro classes warningsOf
  have hperm : classes.Perm classes.reverse := classes.reverse_perm.symm
  exact ⟨hperm, by decide +kernel, conflicts_unordered [⟨"/r"⟩] [] hperm⟩

/-- The conflict of `/r/P` and `/r/p`, without classes of their own, is told at `r/P` if a class
below `/r/P` comes first, and else at `r/p`. -/
theorem not_forall_perm_conflict_places :
    ¬ ∀ (rootPaths : List Path) (files : List SourceFile) (cs ds : List ClassInfo), cs.Perm ds →
      (aggregate rootPaths files cs).warnings.map (·.path.components) =
        (aggregate rootPaths files ds).warnings.map (·.path.components) := by
  intro h
  let a : ClassInfo := ⟨"A", ⟨"/r/P/x/a.py"⟩, 1, 0, 1, 1⟩
  let b : ClassInfo := ⟨"B", ⟨"/r/p/y/b.py"⟩, 1, 0, 1, 1⟩
  have hplaces := h [⟨"/r"⟩] [] [a, b] [b, a] (List.Perm.swap b a [])
  have hfirst : (aggregate [⟨"/r"⟩] [] [a, b]).warnings.map (·.path.components) =
      [[.normal "r", .normal "P"]] := by decide +kernel
  have hsecond : (aggregate [⟨"/r"⟩] [] [b, a]).warnings.map (·.path.components) =
      [[.normal "r", .normal "p"]] := by decide +kernel
  rw [hfirst, hsecond] at hplaces
  exact absurd hplaces (by decide)

end CodeAtlas
