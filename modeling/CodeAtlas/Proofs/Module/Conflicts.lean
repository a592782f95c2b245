import CodeAtlas.Proofs.Module.Merges

/-!
# Conflicts of letter case

The slot of a module meets its last name once for each class at or below it, as spelled on the way
to that class. So there is one warning, in the order of the modules, for each name that is spelled
in several ways, and none besides; every other module goes by its only spelling.
-/
namespace CodeAtlas
open Slots

/-! ### Spellings -/

/-- The names, as spelled on the way to the class, that lead to the module with the key. -/
def namesTo (roots : List ModuleRoot) (k : ModuleKey) (c : ClassInfo) : List String :=
  (Placement.ofClass roots c).names.take k.length

def classesThrough (roots : List ModuleRoot) (classes : List ClassInfo) (k : ModuleKey) :
    List ClassInfo :=
  classes.filter fun c => k <+: classKey roots c

/-- The spellings, in order, of a module's last name on the way to the classes at or below it. -/
def spellingsOf (roots : List ModuleRoot) (classes : List ClassInfo) (k : ModuleKey) :
    List String :=
  sortedSet compare ((classesThrough roots classes k).filterMap fun c => (namesTo roots k c).getLast?)

section Spellings
variable {roots : List ModuleRoot} {classes : List ClassInfo} {k : ModuleKey}

theorem mem_classesThrough {c : ClassInfo} :
    c ∈ classesThrough roots classes k ↔ c ∈ classes ∧ k <+: classKey roots c := by
  rw [classesThrough, List.mem_filter, decide_eq_true_eq]

theorem ofNames_namesTo {c : ClassInfo} (h : k <+: classKey roots c) :
    ModuleKey.ofNames (namesTo roots k c) = k := by
  rw [namesTo, ModuleKey.ofNames_take]
  exact (List.prefix_iff_eq_take.1 h).symm

theorem namesTo_eq {c : ClassInfo} {names : List String} (h : ModuleKey.ofNames names = k)
    (hp : names <+: (Placement.ofClass roots c).names) : namesTo roots k c = names := by
  rw [namesTo, ← h, ModuleKey.length_ofNames]
  exact (List.prefix_iff_eq_take.1 hp).symm

theorem namesTo_topKey (c : ClassInfo) :
    namesTo roots (topKey roots) c = ModuleRoot.topNames roots :=
  namesTo_eq rfl (topNames_isPrefix roots c)

/-- A spelling ends a beginning of the names of a class, and that beginning leads to the module. -/
theorem mem_spellingsOf {s : String} : s ∈ spellingsOf roots classes k ↔
    ∃ c ∈ classes, ∃ names, names ++ [s] <+: (Placement.ofClass roots c).names ∧
      ModuleKey.ofNames (names ++ [s]) = k := by
  simp only [spellingsOf, mem_sortedSet, List.mem_filterMap, mem_classesThrough]
  constructor
  · rintro ⟨c, ⟨hc, hthrough⟩, hlast⟩
    obtain ⟨names, hnames⟩ := List.getLast?_eq_some_iff.1 hlast
    refine ⟨c, hc, names, ?_, ?_⟩
    · rw [← hnames]
      exact List.take_prefix _ _
    · rw [← hnames, ofNames_namesTo hthrough]
  · rintro ⟨c, hc, names, hp, hkey⟩
    refine ⟨c, ⟨hc, ?_⟩, ?_⟩
    · rw [← hkey]
      exact hp.map Text.lower
    · rw [namesTo_eq hkey hp, List.getLast?_concat]

theorem spellingsOf_ascending (roots : List ModuleRoot) (classes : List ClassInfo)
    (k : ModuleKey) : (spellingsOf roots classes k).Pairwise (· < ·) :=
  (ascending_sortedSet _).imp compare_string_eq_lt.1

/-! ### What the slots meet -/

theorem beginnings_eq {least : Nat} {names : List String} (h : least ≤ names.length) :
    beginnings least names = (List.range' least (names.length - least + 1)).map names.take := by
  rw [beginnings, List.range'_concat, List.map_append, Nat.one_mul, Nat.add_sub_cancel' h,
    List.map_singleton, List.take_length]

/-- Of the beginnings of a list of names at most one leads to a module. -/
theorem filter_beginnings {least : Nat} {names : List String} (h : least ≤ names.length)
    (hk : least ≤ k.length) :
    (beginnings least names).filter (fun ns => ModuleKey.ofNames ns = k) =
      if k <+: ModuleKey.ofNames names then [names.take k.length] else [] := by
  have hpick : ∀ n ∈ List.range' least (names.length - least + 1),
      decide (ModuleKey.ofNames (names.take n) = k) =
        decide (n = k.length ∧ k <+: ModuleKey.ofNames names) := by
    intro n hn
    have hle : n ≤ (ModuleKey.ofNames names).length := by
      rw [ModuleKey.length_ofNames]
      have := (List.mem_range'_1.1 hn).2
      omega
    rw [decide_eq_decide, ModuleKey.ofNames_take, List.prefix_iff_eq_take]
    constructor
    · rintro rfl
      rw [List.length_take_of_le hle]
      exact ⟨rfl, rfl⟩
    · rintro ⟨rfl, he⟩
      exact he.symm
  rw [beginnings_eq h, List.filter_map, Function.comp_def, List.filter_congr hpick]
  split
  next hp =>
    have hmem : k.length ∈ List.range' least (names.length - least + 1) := by
      have hle := hp.length_le
      rw [ModuleKey.length_ofNames] at hle
      rw [List.mem_range'_1]
      omega
    have hone : (List.range' least (names.length - least + 1)).filter
        (fun n => n = k.length ∧ k <+: ModuleKey.ofNames names) = [k.length] := by
      simp only [hp, and_true]
      rw [List.filter_eq, List.count_eq_one_of_mem List.nodup_range' hmem]
      rfl
    rw [hone, List.map_singleton]
  next hp => simp [hp]

/-- The names that lead to a module are met once for the top and once for each class through it. -/
theorem filter_met (hk : (topKey roots).length ≤ k.length) :
    (met (ModuleRoot.topNames roots) (classes.map (Placement.ofClass roots))).filter
        (fun names => ModuleKey.ofNames names = k) =
      (if topKey roots = k then [ModuleRoot.topNames roots] else []) ++
        (classesThrough roots classes k).map (namesTo roots k) := by
  rw [topKey, ModuleKey.length_ofNames] at hk
  have hclasses : (classes.flatMap fun c => (beginnings (ModuleRoot.topNames roots).length
      (Placement.ofClass roots c).names).filter fun names => ModuleKey.ofNames names = k) =
        (classesThrough roots classes k).map (namesTo roots k) := by
    induction classes with
    | nil => rfl
    | cons c classes ih =>
      have hone : (beginnings (ModuleRoot.topNames roots).length
          (Placement.ofClass roots c).names).filter (fun names => ModuleKey.ofNames names = k) =
            if k <+: classKey roots c then [namesTo roots k c] else [] :=
        filter_beginnings (topNames_isPrefix roots c).length_le hk
      rw [List.flatMap_cons, ih, hone, classesThrough, classesThrough, List.filter_cons]
      by_cases hc : k <+: classKey roots c
      · rw [if_pos hc, if_pos (decide_eq_true hc)]
        rfl
      · rw [if_neg hc, if_neg (by simpa using hc)]
        rfl
  rw [met, List.filter_cons, List.filter_flatMap, List.flatMap_map, hclasses, topKey]
  split <;> simp_all

theorem spellings_slotOf_eq_sortedSet (files : List SourceFile)
    (hk : (topKey roots).length ≤ k.length) : (slotOf roots files classes k).spellings =
      sortedSet compare (((if topKey roots = k then [ModuleRoot.topNames roots] else []) ++
        (classesThrough roots classes k).map (namesTo roots k)).filterMap List.getLast?) := by
  rw [← filter_met hk]
  rfl

/-- Below the top, a slot has the spellings on the way to the classes and no others. -/
theorem spellings_slotOf (files : List SourceFile) (h : k ∈ moduleKeys roots classes)
    (hne : k ≠ topKey roots) : (slotOf roots files classes k).spellings =
      spellingsOf roots classes k := by
  have hk := ((moduleKeys_treeKeys roots classes).top_isPrefix k h).length_le
  rw [spellings_slotOf_eq_sortedSet files hk, if_neg hne.symm, List.nil_append, List.filterMap_map]
  rfl

/-- In whatever way the last name at the top is met, it is met in one spelling. -/
theorem sortedSet_eq_topNames {xs : List String}
    (h : ∀ s, s ∈ xs ↔ (ModuleRoot.topNames roots).getLast? = some s) :
    sortedSet compare xs = ModuleRoot.topNames roots := by
  unfold ModuleRoot.topNames at h ⊢
  split at h
  next r =>
    have hset : sortedSet compare xs = sortedSet compare [r.label] := by
      refine sortedSet_congr fun s => ?_
      rw [h, List.getLast?_singleton, Option.some_inj, List.mem_singleton, eq_comm]
    exact hset
  · rw [sortedSet_eq_nil, List.eq_nil_iff_forall_not_mem]
    intro s hs
    exact Option.some_ne_none s ((h s).1 hs).symm

/-- All classes are below the top, and its name is spelled in one way on the way to each. -/
theorem spellingsOf_topKey : spellingsOf roots classes (topKey roots) =
    if classes = [] then [] else ModuleRoot.topNames roots := by
  have hall : classesThrough roots classes (topKey roots) = classes :=
    List.filter_eq_self.2 fun c _ => decide_eq_true (topKey_isPrefix roots c)
  split
  next hnil =>
    rw [hnil]
    rfl
  next hne =>
    obtain ⟨c, hc⟩ := List.exists_mem_of_ne_nil _ hne
    rw [spellingsOf, hall]
    refine sortedSet_eq_topNames fun s => ?_
    simp only [namesTo_topKey, List.mem_filterMap]
    exact ⟨fun ⟨_, _, hs⟩ => hs, fun hs => ⟨c, hc, hs⟩⟩

theorem spellings_slotOf_topKey (files : List SourceFile) :
    (slotOf roots files classes (topKey roots)).spellings = ModuleRoot.topNames roots := by
  rw [spellings_slotOf_eq_sortedSet files le_rfl, if_pos rfl]
  refine sortedSet_eq_topNames fun s => ?_
  rw [List.mem_filterMap]
  constructor
  · rintro ⟨names, hnames, hs⟩
    rcases List.mem_append.1 hnames with hnames | hnames
    · rwa [List.mem_singleton.1 hnames] at hs
    · obtain ⟨c, -, rfl⟩ := List.mem_map.1 hnames
      rwa [namesTo_topKey] at hs
  · intro hs
    exact ⟨_, List.mem_append_left _ List.mem_cons_self, hs⟩

theorem ne_topKey_of_spellingsOf (h : 1 < (spellingsOf roots classes k).length) :
    k ≠ topKey roots := by
  rintro rfl
  have hle := length_topNames_le roots
  rw [spellingsOf_topKey] at h
  split at h
  · simp at h
  · omega

theorem spellingsOf_ne_nil (h : k ∈ moduleKeys roots classes) (hne : k ≠ topKey roots) :
    spellingsOf roots classes k ≠ [] := by
  obtain ⟨c, hc, -, hthrough⟩ := (mem_moduleKeys.1 h).resolve_left hne
  have hlength := (moduleKeys_treeKeys roots classes).length_lt h hne
  have hnames : namesTo roots k c ≠ [] := by
    intro hnil
    have hk := ofNames_namesTo hthrough
    rw [hnil] at hk
    rw [← hk] at hlength
    exact Nat.not_lt_zero _ hlength
  rw [Ne, spellingsOf, sortedSet_eq_nil]
  exact List.ne_nil_of_mem (List.mem_filterMap.2
    ⟨c, mem_classesThrough.2 ⟨hc, hthrough⟩, List.getLast?_eq_some_getLast hnames⟩)

/-- Spellings meet in a slot exactly if the classes below it are reached by several. -/
theorem isMerged_slotOf (files : List SourceFile) (h : k ∈ moduleKeys roots classes) :
    (slotOf roots files classes k).isMerged = true ↔
      1 < (spellingsOf roots classes k).length := by
  rw [Slot.isMerged, decide_eq_true_eq]
  by_cases hne : k = topKey roots
  · have hle := length_topNames_le roots
    rw [hne, spellings_slotOf_topKey]
    exact iff_of_false (by omega) fun h => ne_topKey_of_spellingsOf h rfl
  · rw [spellings_slotOf files h hne]

theorem conflict?_slotOf_eq_none (files : List SourceFile) (h : k ∈ moduleKeys roots classes)
    (hsingle : ¬ 1 < (spellingsOf roots classes k).length) :
    (slotOf roots files classes k).conflict? = none := by
  rw [Slot.conflict?, if_neg]
  rwa [isMerged_slotOf files h]

/-- A module that is spelled in several ways goes by the last name of its key. -/
theorem getLast?_eq_name_slotOf (files : List SourceFile) (h : k ∈ moduleKeys roots classes)
    (hmerged : 1 < (spellingsOf roots classes k).length) :
    k.getLast? = some (slotOf roots files classes k).name := by
  have hlength := (moduleKeys_treeKeys roots classes).length_lt h (ne_topKey_of_spellingsOf hmerged)
  have hlast := List.getLast?_eq_some_getLast (List.ne_nil_of_length_pos (Nat.zero_lt_of_lt hlength))
  rw [Slot.name, if_pos ((isMerged_slotOf files h).2 hmerged)]
  exact hlast.trans (congrArg (fun o => some (o.getD "")) hlast).symm

/-- Any other module below the top goes by its only spelling. -/
theorem spellingsOf_eq_name_slotOf (files : List SourceFile) (h : k ∈ moduleKeys roots classes)
    (hne : k ≠ topKey roots) (hsingle : ¬ 1 < (spellingsOf roots classes k).length) :
    spellingsOf roots classes k = [(slotOf roots files classes k).name] := by
  have hlength := List.length_pos_of_ne_nil (spellingsOf_ne_nil h hne)
  obtain ⟨s, hs⟩ := List.length_eq_one_iff.1 (show (spellingsOf roots classes k).length = 1 by omega)
  rw [name_slotOf h, spellings_slotOf files h hne, if_neg hsingle, hs, List.head?_singleton,
    Option.getD_some]

end Spellings

/-! ### Warnings, names and paths -/

structure ReportsSpellings (roots : List ModuleRoot) (classes : List ClassInfo) (a : Aggregation) :
    Prop where
  /-- A class counts for all modules that the beginnings of its names lead to. -/
  mem_spellings : ∀ k s, s ∈ spellingsOf roots classes k ↔ ∃ c ∈ classes, ∃ names,
    names ++ [s] <+: (Placement.ofClass roots c).names ∧ ModuleKey.ofNames (names ++ [s]) = k
  ascending : ∀ k, (spellingsOf roots classes k).Pairwise (· < ·)
  /-- The warnings are those about the modules with several spellings, one by one. -/
  warnings : List.Forall₂ (fun n w => n.ToldBy (spellingsOf roots classes n.key) w)
    (a.tree.nodes.toList.filter fun n => 1 < (spellingsOf roots classes n.key).length) a.warnings
  merged_name : ∀ i < a.tree.size, 1 < (spellingsOf roots classes (a.tree.get i).key).length →
    (a.tree.get i).key.getLast? = some (a.tree.get i).name
  /-- There are no spellings for the top over several roots, or if there are no classes. -/
  top_name : (a.tree.get 0).name = (ModuleRoot.topNames roots).head?.getD "" ∧
    spellingsOf roots classes (a.tree.get 0).key =
      if classes = [] then [] else ModuleRoot.topNames roots
  only_spelling : ∀ i < a.tree.size, i ≠ 0 →
    ¬ 1 < (spellingsOf roots classes (a.tree.get i).key).length →
      spellingsOf roots classes (a.tree.get i).key = [(a.tree.get i).name]
  path : ∀ i < a.tree.size, i ≠ 0 → ∃ p < i, (a.tree.get i).parent = some p ∧
    (a.tree.get i).path = if (a.tree.get p).path.isEmpty then (a.tree.get i).name
      else (a.tree.get p).path ++ "/" ++ (a.tree.get i).name

theorem forall₂_filter_filterMap {α β : Type} {R : α → β → Prop} {p : α → Bool} {f : α → Option β}
    {xs : List α} (hsome : ∀ x ∈ xs, p x = true → ∃ y, f x = some y ∧ R x y)
    (hnone : ∀ x ∈ xs, p x = false → f x = none) :
    List.Forall₂ R (xs.filter p) (xs.filterMap f) := by
  induction xs with
  | nil => exact .nil
  | cons x xs ih =>
    have hrest := ih (fun y hy => hsome y (List.mem_cons_of_mem _ hy))
      fun y hy => hnone y (List.mem_cons_of_mem _ hy)
    cases hp : p x with
    | true =>
      obtain ⟨y, hy, hR⟩ := hsome x List.mem_cons_self hp
      rw [List.filter_cons_of_pos hp, List.filterMap_cons_some hy]
      exact .cons hR hrest
    | false =>
      rw [List.filter_cons_of_neg (by simp [hp]), List.filterMap_cons_none (hnone x
        List.mem_cons_self hp)]
      exact hrest

section Aggregate
variable {rootPaths : List Path} {files : List SourceFile} {classes : List ClassInfo}

theorem ne_topKey {i : Nat} (hi : i < (aggregate rootPaths files classes).tree.size) (h : i ≠ 0) :
    ((aggregate rootPaths files classes).tree.get i).key ≠
      topKey (ModuleRoot.ofPaths rootPaths) := by
  have hb := aggregate_built rootPaths files classes
  intro htop
  exact h (hb.get_key_inj hi hb.linked.length_pos (htop.trans hb.linked.root_key.symm))

/-- Where a name is spelled in several ways, a slot tells of its module and of all spellings. -/
theorem exists_toldBy_of_spellingsOf {i : Nat}
    (hi : i < (aggregate rootPaths files classes).tree.size)
    (h : 1 < (spellingsOf (ModuleRoot.ofPaths rootPaths) classes
      ((aggregate rootPaths files classes).tree.get i).key).length) :
    ∃ w, (slotOf (ModuleRoot.ofPaths rootPaths) files classes
        ((aggregate rootPaths files classes).tree.get i).key).conflict? = some w ∧
      ((aggregate rootPaths files classes).tree.get i).ToldBy
        (spellingsOf (ModuleRoot.ofPaths rootPaths) classes
          ((aggregate rootPaths files classes).tree.get i).key) w := by
  have hk := (aggregate_built rootPaths files classes).get_key_mem hi
  have hconflict := Slot.conflict?_eq_some ((isMerged_slotOf files hk).2 h)
  refine ⟨_, hconflict, ?_⟩
  rw [← spellings_slotOf files hk (ne_topKey_of_spellingsOf h)]
  exact toldBy_of_conflict? hi hconflict

/-- The name at the top over one root is that of the root; over several roots there is none. -/
theorem aggregate_name_top : ((aggregate rootPaths files classes).tree.get 0).name =
    (ModuleRoot.topNames (ModuleRoot.ofPaths rootPaths)).head?.getD "" := by
  have hb := aggregate_built rootPaths files classes
  have hpos := hb.linked.length_pos
  have htop : ((aggregate rootPaths files classes).tree.get 0).key =
      topKey (ModuleRoot.ofPaths rootPaths) := hb.linked.root_key
  have hle := length_topNames_le (ModuleRoot.ofPaths rootPaths)
  rw [aggregate_name hpos, name_slotOf (hb.get_key_mem hpos), htop, spellings_slotOf_topKey,
    if_neg (by omega)]

theorem aggregate_conflicts (rootPaths : List Path) (files : List SourceFile)
    (classes : List ClassInfo) : ReportsSpellings (ModuleRoot.ofPaths rootPaths) classes
      (aggregate rootPaths files classes) := by
  have hb := aggregate_built rootPaths files classes
  constructor
  case mem_spellings => exact fun _ _ => mem_spellingsOf
  case ascending => exact spellingsOf_ascending _ _
  case warnings =>
    rw [aggregate_warnings, ← hb.keys_eq, List.filterMap_map]
    refine forall₂_filter_filterMap (fun n hn hmerged => ?_) fun n hn hsingle => ?_
    · obtain ⟨i, hi, rfl⟩ := ModuleTree.mem_toList.1 hn
      exact exists_toldBy_of_spellingsOf hi (of_decide_eq_true hmerged)
    · obtain ⟨i, hi, rfl⟩ := ModuleTree.mem_toList.1 hn
      exact conflict?_slotOf_eq_none files (hb.get_key_mem hi) (of_decide_eq_false hsingle)
  case merged_name =>
    intro i hi hmerged
    rw [aggregate_name hi]
    exact getLast?_eq_name_slotOf files (hb.get_key_mem hi) hmerged
  case top_name => exact ⟨aggregate_name_top, hb.linked.root_key ▸ spellingsOf_topKey⟩
  case only_spelling =>
    intro i hi hne hsingle
    rw [aggregate_name hi]
    exact spellingsOf_eq_name_slotOf files (hb.get_key_mem hi) (ne_topKey hi hne) hsingle
  case path =>
    intro i hi hne
    obtain ⟨p, hp⟩ := Option.ne_none_iff_exists'.1 ((hb.linked.parent_eq_none hi).not.2 hne)
    have hlt : p < i := by
      rw [ModuleTree.get_parent hi] at hp
      exact hb.linked.parentAt_lt hp
    have hpath := aggregate_path hi
    rw [hp] at hpath
    exact ⟨p, hlt, hp, hpath⟩

end Aggregate
end CodeAtlas
