import CodeAtlas.Proofs.Module.Built

namespace CodeAtlas

theorem pathOf_congr {nodes nodes' : List ModuleNode} {parent : Option Nat}
    (h : ∀ p, parent = some p → nodes[p]?.map (·.path) = nodes'[p]?.map (·.path)) (s : Slot) :
    pathOf nodes parent s = pathOf nodes' parent s := by
  cases parent with
  | none => rfl
  | some p =>
    have hp := h p rfl
    simp only [pathOf, Option.bind_some]
    cases hn : nodes[p]? <;> cases hn' : nodes'[p]? <;> simp_all

theorem path_nodesOf {t : Nat} {slots : Slots} {i : Nat} {n : ModuleNode} {s : Slot}
    (hn : (nodesOf t slots)[i]? = some n) (hs : slots[i]? = some s) :
    n.path = pathOf (nodesOf t slots) n.parent s := by
  induction slots using List.reverseRecOn generalizing n with
  | nil => simp at hs
  | append_singleton slots last ih =>
    have hlen := length_nodesOf t slots
    have hkeep : ∀ p < (nodesOf t slots).length,
        (nodesOf t slots)[p]?.map (·.path) = (nodesOf t (slots ++ [last]))[p]?.map (·.path) := by
      intro p hp
      have hmap := congrArg (·[p]?) (map_addNode (f := fun n => n.path) (fun _ _ => rfl) t
        (nodesOf t slots) last)
      simp only [List.getElem?_map] at hmap
      rw [nodesOf_concat, hmap, List.getElem?_append_left (by simpa using hp), List.getElem?_map]
    rcases lt_trichotomy i slots.length with hi | rfl | hi
    · rw [List.getElem?_append_left hi] at hs
      have hin := hn
      rw [nodesOf_concat, getElem?_addNode_lt (hlen ▸ hi)] at hn
      obtain ⟨n₀, hn₀, hadd⟩ := Option.map_eq_some_iff.1 hn
      have hpath : n.path = n₀.path := by
        rw [← hadd]
        split <;> rfl
      have hparent : n.parent = n₀.parent := by
        rw [← hadd]
        split <;> rfl
      rw [hpath, hparent, ih hn₀ hs]
      apply pathOf_congr
      intro p hp
      have hlt : p < i := parentAt_lt (show parentAt (nodesOf t slots) i = some p by
        simp [parentAt, hn₀, hp])
      exact hkeep p (by omega)
    · rw [nodesOf_concat, ← hlen, getElem?_addNode_eq] at hn
      obtain rfl := Option.some.inj hn
      obtain rfl : last = s := by simpa using hs
      apply pathOf_congr
      intro p hp
      exact hkeep p (parentOf?_lt hp)
    · rw [List.getElem?_eq_none (by simp; omega)] at hs
      simp at hs

section Aggregate
variable {rootPaths : List Path} {files : List SourceFile} {classes : List ClassInfo}

theorem aggregate_name {i : Nat} (hi : i < (aggregate rootPaths files classes).tree.size) :
    ((aggregate rootPaths files classes).tree.get i).name =
      (slotOf (ModuleRoot.ofPaths rootPaths) files classes
        ((aggregate rootPaths files classes).tree.get i).key).name :=
  aggregate_get (g := Slot.name) (fun _ _ => rfl) (fun _ _ => rfl) (fun _ _ _ => rfl) hi

theorem aggregate_kind {i : Nat} (hi : i < (aggregate rootPaths files classes).tree.size) :
    ((aggregate rootPaths files classes).tree.get i).kind =
      if (slotOf (ModuleRoot.ofPaths rootPaths) files classes
        ((aggregate rootPaths files classes).tree.get i).key).isPackage then .package
      else .directory :=
  aggregate_get (f := fun n => n.kind) (g := fun s => if s.isPackage then .package else .directory)
    (fun _ _ => rfl) (fun _ _ => rfl) (fun _ _ _ => rfl) hi

/-- A node of a built tree but for its counts is the node that was made of its slot. -/
theorem exists_bare_eq {i : Nat} (hi : i < (aggregate rootPaths files classes).tree.size) :
    ∃ n, (nodesOf (topKey (ModuleRoot.ofPaths rootPaths)).length
        (slotsOf (ModuleRoot.ofPaths rootPaths) files classes))[i]? = some n ∧
      bare n = bare ((aggregate rootPaths files classes).tree.get i) := by
  have hmap := congrArg (·[i]?) (map_bare_rollUp
    (nodesOf (topKey (ModuleRoot.ofPaths rootPaths)).length
      (slotsOf (ModuleRoot.ofPaths rootPaths) files classes)))
  rw [← aggregate_nodes] at hmap
  simp only [List.getElem?_map, ModuleTree.getElem?_toList hi, Option.map_some] at hmap
  exact Option.map_eq_some_iff.1 hmap.symm

theorem getElem?_slotsOf {i : Nat} (hi : i < (aggregate rootPaths files classes).tree.size) :
    (slotsOf (ModuleRoot.ofPaths rootPaths) files classes)[i]? =
      some (slotOf (ModuleRoot.ofPaths rootPaths) files classes
        ((aggregate rootPaths files classes).tree.get i).key) := by
  have hkey := congrArg (·[i]?) (aggregate_keys rootPaths files classes)
  simp only [List.getElem?_map, ModuleTree.getElem?_toList hi, Option.map_some] at hkey
  rw [slotsOf_eq, List.getElem?_map, ← hkey, Option.map_some]

theorem path_eq_of_bare {n m : ModuleNode} (h : bare n = bare m) : n.path = m.path := by
  have hpath : (bare n).path = (bare m).path := by rw [h]
  exact hpath

theorem parent_eq_of_bare {n m : ModuleNode} (h : bare n = bare m) : n.parent = m.parent := by
  have hparent : (bare n).parent = (bare m).parent := by rw [h]
  exact hparent

theorem aggregate_path {i : Nat} (hi : i < (aggregate rootPaths files classes).tree.size) :
    ((aggregate rootPaths files classes).tree.get i).path =
      match ((aggregate rootPaths files classes).tree.get i).parent with
      | none => "/".intercalate (slotOf (ModuleRoot.ofPaths rootPaths) files classes
          ((aggregate rootPaths files classes).tree.get i).key).names
      | some p =>
        if ((aggregate rootPaths files classes).tree.get p).path.isEmpty then
          ((aggregate rootPaths files classes).tree.get i).name
        else ((aggregate rootPaths files classes).tree.get p).path ++ "/" ++
          ((aggregate rootPaths files classes).tree.get i).name := by
  obtain ⟨n, hn, hbare⟩ := exists_bare_eq hi
  rw [← path_eq_of_bare hbare, path_nodesOf hn (getElem?_slotsOf hi), parent_eq_of_bare hbare,
    aggregate_name hi]
  cases hp : ((aggregate rootPaths files classes).tree.get i).parent with
  | none => rfl
  | some p =>
    have hlt : p < (aggregate rootPaths files classes).tree.size := by
      rw [ModuleTree.get_parent hi] at hp
      exact ((aggregate_built _ _ _).linked.parentAt_iff.1 hp).1.2
    obtain ⟨m, hm, hbare⟩ := exists_bare_eq hlt
    simp only [pathOf, Option.bind_some, hm, path_eq_of_bare hbare]

end Aggregate
end CodeAtlas
