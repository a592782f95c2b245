import Mathlib.Data.List.Perm.Basic
import CodeAtlas.Proofs.Module.RollUp
import CodeAtlas.Proofs.Module.Subtree
import CodeAtlas.Proofs.Text.LetterCase

namespace CodeAtlas
open Slots

theorem sortClasses_perm (cs : List ClassInfo) : (sortClasses cs).Perm cs := by
  have h := (List.mergeSort_perm (cs.map fun c => (c.file.components, c))
    fun a b => (cmpClasses a b).isLE).map Prod.snd
  simpa [sortClasses, Function.comp_def] using h

/-- Elements sorted by a key, which is one of the given different ones, are the same elements. -/
theorem flatMap_filter_perm {α κ : Type} [DecidableEq κ] (key : α → κ) {keys : List κ}
    (hkeys : keys.Nodup) {xs : List α} (hx : ∀ x ∈ xs, key x ∈ keys) :
    (keys.flatMap fun k => xs.filter fun x => key x = k).Perm xs := by
  induction keys generalizing xs with
  | nil =>
    have hnil : xs = [] := List.eq_nil_iff_forall_not_mem.2 fun x h => by simpa using hx x h
    simp [hnil]
  | cons k keys ih =>
    obtain ⟨hk, hkeys⟩ := List.nodup_cons.1 hkeys
    have hrest : ∀ x ∈ xs.filter fun x => !decide (key x = k), key x ∈ keys := fun x h => by
      obtain ⟨h, hne⟩ := List.mem_filter.1 h
      exact (List.mem_cons.1 (hx x h)).resolve_left (by simpa using hne)
    have hsame : (keys.flatMap fun k' => xs.filter fun x => key x = k') =
        keys.flatMap fun k' => (xs.filter fun x => !decide (key x = k)).filter fun x =>
          key x = k' := by
      refine List.flatMap_congr fun k' hk' => ?_
      rw [List.filter_filter]
      refine List.filter_congr fun x _ => ?_
      by_cases he : key x = k'
      · have hne : k' ≠ k := fun he' => hk (he' ▸ hk')
        simp [he, hne]
      · simp [he]
    rw [List.flatMap_cons, hsame]
    exact ((ih hkeys hrest).append_left _).trans (List.filter_append_perm _ xs)

section Slots
variable {roots : List ModuleRoot} {classes : List ClassInfo} {k : ModuleKey}

theorem ofNames_names_slotOf (files : List SourceFile) (h : k ∈ moduleKeys roots classes) :
    ModuleKey.ofNames (slotOf roots files classes k).names = k := by
  obtain ⟨names, hn, he⟩ := mem_keysAfter.1 h
  have hmem : names ∈ (met (ModuleRoot.topNames roots) (classes.map (Placement.ofClass roots))).filter
      fun ns => ModuleKey.ofNames ns = k := List.mem_filter.2 ⟨hn, decide_eq_true he⟩
  obtain ⟨first, hfirst⟩ := Option.isSome_iff_exists.1
    (List.isSome_head?.2 (List.ne_nil_of_mem hmem))
  have hf := (List.mem_filter.1 (List.mem_of_head? hfirst)).2
  simpa [slotOf, slotAfter, hfirst, -List.head?_filter] using hf

/-- Whether or not spellings meet in a module, its name lowered ends its key. -/
theorem lower_name_slotOf (files : List SourceFile) (h : k ∈ moduleKeys roots classes) :
    Text.lower (slotOf roots files classes k).name = k.getLast?.getD "" := by
  have hnames := ofNames_names_slotOf files h
  have hlast : ∀ names : List String, (ModuleKey.ofNames names).getLast?.getD "" =
      Text.lower (names.getLast?.getD "") := fun names => by
    rw [ModuleKey.ofNames, List.getLast?_map]
    cases names.getLast? <;> rfl
  have hkey : (slotOf roots files classes k).key = k := rfl
  unfold Slot.name
  split
  · rw [hkey, ← hnames, hlast, Text.lower_lower]
  · rw [← hlast, hnames]

theorem classes_slotOf (files : List SourceFile) :
    (slotOf roots files classes k).classes = classes.filter fun c => classKey roots c = k := by
  simp only [slotOf, slotAfter, List.filter_map, List.map_map]
  have hinfo : (fun p => p.info) ∘ Placement.ofClass roots = id := rfl
  rw [hinfo, List.map_id]
  rfl

end Slots

section Aggregate
variable {rootPaths : List Path} {files : List SourceFile} {classes : List ClassInfo}

theorem aggregate_nodes (rootPaths : List Path) (files : List SourceFile)
    (classes : List ClassInfo) :
    (aggregate rootPaths files classes).tree.nodes.toList =
      rollUp (nodesOf (topKey (ModuleRoot.ofPaths rootPaths)).length
        (slotsOf (ModuleRoot.ofPaths rootPaths) files classes)) := by
  simp [aggregate, topKey, ModuleKey.length_ofNames]

theorem slotsOf_treeKeys (roots : List ModuleRoot) (files : List SourceFile)
    (classes : List ClassInfo) :
    TreeKeys (topKey roots) ((slotsOf roots files classes).map (·.key)) :=
  slotsOf_keys roots files classes ▸ moduleKeys_treeKeys roots classes

/-- What a node of a built tree takes over from the slot for its key. -/
theorem map_aggregate (rootPaths : List Path) (files : List SourceFile) (classes : List ClassInfo)
    {β : Type} {f : ModuleNode → β} {g : Slot → β} (hs : ∀ s n, f (addStats s n) = f n)
    (hc : ∀ id n, f (addChild id n) = f n) (hg : ∀ t nodes s, f (nodeOf t nodes s) = g s) :
    (aggregate rootPaths files classes).tree.nodes.toList.map f =
      (moduleKeys (ModuleRoot.ofPaths rootPaths) classes).map fun k =>
        g (slotOf (ModuleRoot.ofPaths rootPaths) files classes k) := by
  rw [aggregate_nodes, rollUp, map_foldr_passUp hs, map_nodesOf hc hg, slotsOf_eq, List.map_map]
  rfl

theorem aggregate_keys (rootPaths : List Path) (files : List SourceFile)
    (classes : List ClassInfo) :
    (aggregate rootPaths files classes).tree.nodes.toList.map (·.key) =
      moduleKeys (ModuleRoot.ofPaths rootPaths) classes := by
  rw [map_aggregate _ _ _ (fun _ _ => rfl) (fun _ _ => rfl) (fun _ _ _ => rfl)]
  exact List.map_id _

theorem aggregate_get {β : Type} {f : ModuleNode → β} {g : Slot → β}
    (hs : ∀ s n, f (addStats s n) = f n) (hc : ∀ id n, f (addChild id n) = f n)
    (hg : ∀ t nodes s, f (nodeOf t nodes s) = g s) {i : Nat}
    (hi : i < (aggregate rootPaths files classes).tree.size) :
    f ((aggregate rootPaths files classes).tree.get i) =
      g (slotOf (ModuleRoot.ofPaths rootPaths) files classes
        ((aggregate rootPaths files classes).tree.get i).key) := by
  have hget := ModuleTree.getElem?_toList hi
  have hf := congrArg (·[i]?) (map_aggregate rootPaths files classes hs hc hg)
  have hk := congrArg (·[i]?) (aggregate_keys rootPaths files classes)
  simp only [List.getElem?_map, hget, Option.map_some] at hf hk
  rw [← hk] at hf
  exact Option.some.inj hf

theorem aggregate_get_classes {i : Nat}
    (hi : i < (aggregate rootPaths files classes).tree.size) :
    ((aggregate rootPaths files classes).tree.get i).classes = sortClasses (classes.filter fun c =>
      classKey (ModuleRoot.ofPaths rootPaths) c =
        ((aggregate rootPaths files classes).tree.get i).key) := by
  rw [← classes_slotOf files]
  exact aggregate_get (g := fun s => sortClasses s.classes) (fun _ _ => rfl) (fun _ _ => rfl)
    (fun _ _ _ => rfl) hi

theorem aggregate_statsAt {i : Nat} (hi : i < (aggregate rootPaths files classes).tree.size) :
    statsAt (aggregate rootPaths files classes).tree.nodes.toList i =
      (ownAt (aggregate rootPaths files classes).tree.nodes.toList i).add
        (Stats.sum ((childrenAt (aggregate rootPaths files classes).tree.nodes.toList i).map
          (statsAt (aggregate rootPaths files classes).tree.nodes.toList))) := by
  have hi : i < (aggregate rootPaths files classes).tree.nodes.toList.length := hi
  have hlinked := nodesOf_linked (slotsOf_treeKeys (ModuleRoot.ofPaths rootPaths) files classes)
  rw [aggregate_nodes] at hi ⊢
  rw [length_rollUp] at hi
  rw [childrenAt_rollUp, ownAt_rollUp]
  exact statsAt_rollUp (fun _ _ hp => hlinked.parentAt_lt hp) (map_stats_nodesOf _ _) hi

end Aggregate

/-- All that is needed of a tree over some roots and classes, however it came to be. -/
structure Built (roots : List ModuleRoot) (classes : List ClassInfo) (t : ModuleTree) : Prop where
  roots_eq : t.roots = roots
  linked : Linked (topKey roots) t.nodes.toList
  keys_eq : t.nodes.toList.map (·.key) = moduleKeys roots classes
  get_classes : ∀ {i : Nat}, i < t.size →
    (t.get i).classes = sortClasses (classes.filter fun c => classKey roots c = (t.get i).key)
  get_own : ∀ {i : Nat}, i < t.size → (t.get i).own = Stats.ofClasses (t.get i).classes
  lower_name : ∀ {i : Nat}, i < t.size →
    Text.lower (t.get i).name = (t.get i).key.getLast?.getD ""
  statsAt_eq : ∀ {i : Nat}, i < t.size → statsAt t.nodes.toList i =
    (ownAt t.nodes.toList i).add
      (Stats.sum ((childrenAt t.nodes.toList i).map (statsAt t.nodes.toList)))

theorem aggregate_built (rootPaths : List Path) (files : List SourceFile)
    (classes : List ClassInfo) :
    Built (ModuleRoot.ofPaths rootPaths) classes (aggregate rootPaths files classes).tree where
  roots_eq := rfl
  linked := by
    rw [aggregate_nodes]
    exact (nodesOf_linked (slotsOf_treeKeys _ _ _)).rollUp
  keys_eq := aggregate_keys rootPaths files classes
  get_classes := aggregate_get_classes
  get_own := by
    intro i hi
    have hown := aggregate_get (f := fun n => n.own) (g := fun s => Stats.ofClasses
      (sortClasses s.classes)) (fun _ _ => rfl) (fun _ _ => rfl) (fun _ _ _ => rfl) hi
    rw [hown, classes_slotOf, ← aggregate_get_classes hi]
  lower_name := by
    intro i hi
    have hk : ((aggregate rootPaths files classes).tree.get i).key ∈
        moduleKeys (ModuleRoot.ofPaths rootPaths) classes := by
      rw [← aggregate_keys rootPaths files classes]
      exact List.mem_map_of_mem (List.mem_of_getElem? (ModuleTree.getElem?_toList hi))
    rw [aggregate_get (f := fun n => n.name) (g := Slot.name) (fun _ _ => rfl) (fun _ _ => rfl)
      (fun _ _ _ => rfl) hi]
    exact lower_name_slotOf _ hk
  statsAt_eq := aggregate_statsAt

namespace Built
variable {roots : List ModuleRoot} {classes : List ClassInfo} {t : ModuleTree}

theorem get_key_mem (h : Built roots classes t) {i : Nat} (hi : i < t.size) :
    (t.get i).key ∈ moduleKeys roots classes := by
  rw [← h.keys_eq, ModuleTree.get_key hi]
  exact Linked.keyAt_mem hi

theorem exists_get_key (h : Built roots classes t) {k : ModuleKey}
    (hk : k ∈ moduleKeys roots classes) : ∃ i < t.size, (t.get i).key = k := by
  rw [← h.keys_eq] at hk
  obtain ⟨i, hi, he⟩ := Linked.exists_keyAt hk
  exact ⟨i, hi, (ModuleTree.get_key hi).trans he⟩

theorem get_key_inj (h : Built roots classes t) {i j : Nat} (hi : i < t.size) (hj : j < t.size)
    (he : (t.get i).key = (t.get j).key) : i = j := by
  rw [ModuleTree.get_key hi, ModuleTree.get_key hj] at he
  exact h.linked.keyAt_inj hi hj he

theorem mem_get_classes (h : Built roots classes t) {i : Nat} (hi : i < t.size) {c : ClassInfo} :
    c ∈ (t.get i).classes ↔ c ∈ classes ∧ classKey roots c = (t.get i).key := by
  rw [h.get_classes hi, (sortClasses_perm _).mem_iff, List.mem_filter, decide_eq_true_eq]

theorem allClasses_perm (h : Built roots classes t) : t.allClasses.Perm classes := by
  have hnodup : (moduleKeys roots classes).Nodup :=
    (moduleKeys_treeKeys roots classes).ascending.imp fun hlt => hlt.ne
  have hclasses : t.allClasses = (moduleKeys roots classes).flatMap fun k =>
      sortClasses (classes.filter fun c => classKey roots c = k) := by
    rw [ModuleTree.allClasses, ← h.keys_eq, t.toList_eq_map, List.flatMap_map, List.map_map,
      List.flatMap_map]
    exact List.flatMap_congr fun i hi => h.get_classes (List.mem_range.1 hi)
  rw [hclasses]
  refine (List.Perm.flatMap_left _ fun k _ => sortClasses_perm _).trans ?_
  exact flatMap_filter_perm (classKey roots) hnodup fun _ => classKey_mem

end Built
end CodeAtlas
