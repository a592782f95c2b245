import CodeAtlas.Diagram.Model
import CodeAtlas.Proofs.Module.Naming
import CodeAtlas.Proofs.Module.SameModules

namespace CodeAtlas

namespace IsModulePath
variable {names xs : List String} {s : String}

theorem concat (h : IsModulePath names) (hx : IsModulePath xs)
    (hlength : names.length = xs.length + 1) (hlast : names.getLast? = some s) :
    IsModulePath (xs ++ [s]) := by
  obtain ⟨ys, rfl⟩ := List.getLast?_eq_some_iff.1 hlast
  have hlength : ys.length = xs.length := by simpa using hlength
  cases xs with
  | nil =>
    obtain rfl := List.eq_nil_of_length_eq_zero hlength
    exact h
  | cons x xs =>
    obtain ⟨y, ys, rfl⟩ := List.exists_cons_of_length_pos (show 0 < ys.length by simp [hlength])
    refine ⟨hx.head, fun t ht => ?_⟩
    rcases List.mem_append.1 ht with ht | ht
    · exact hx.tail t ht
    · exact h.tail t (List.mem_append_right ys ht)

theorem concat_of_isOrdinary (h : IsModulePath names) (hs : IsOrdinary s) :
    IsModulePath (names ++ [s]) := by
  cases names with
  | nil => exact ⟨by simpa using Or.inr hs, by simp⟩
  | cons first rest =>
    refine ⟨h.head, fun t ht => ?_⟩
    rcases List.mem_append.1 ht with ht | ht
    · exact h.tail t ht
    · rwa [List.mem_singleton.1 ht]

theorem components (h : IsModulePath names) :
    (Path.ofNames names).components = names.map Component.ofName :=
  Path.components_ofNames h.isName h.dot_not_mem_tail

theorem descends {p : Path} (h : IsModulePath names)
    (hp : p.components = names.map Component.ofName) : p.Descends := by
  intro c hc
  rw [hp] at hc
  obtain ⟨s, hs, rfl⟩ := List.mem_map.1 hc
  rcases h.eq_or_isOrdinary hs with rfl | hordinary
  · exact Or.inl rfl
  · exact Or.inr ⟨s, hordinary.ofName_eq⟩

end IsModulePath

structure ModuleNode.HasNames (n : ModuleNode) (names : List String) : Prop where
  path_eq : n.path = "/".intercalate names
  key_eq : ModuleKey.ofNames names = n.key
  isModulePath : IsModulePath names

theorem ModuleNode.HasNames.pathNames_eq {n : ModuleNode} {names : List String}
    (h : n.HasNames names) : n.pathNames = names := by
  rw [pathNames, h.path_eq]
  cases names with
  | nil => rfl
  | cons s names =>
    have hfields := Path.fields_ofNames (List.cons_ne_nil s names) h.isModulePath.isName
    have hfull : ((s :: names).map String.toList).filter (fun f => !f.isEmpty) =
        (s :: names).map String.toList := by
      rw [List.filter_eq_self]
      intro f hf
      have hne : f ≠ [] := fun he =>
        Path.nil_not_mem_map_toList h.isModulePath.isName (he ▸ hf)
      simpa using hne
    rw [Path.ofNames] at hfields
    rw [hfields, hfull, List.map_map]
    exact List.map_id'' (fun _ => String.ofList_toList) _

/-- Each module of the tree is reached by the names of its path, and a child by one name more. -/
structure Spelled (t : ModuleTree) : Prop where
  hasNames : ∀ {i : Nat}, i < t.size → (t.get i).HasNames (t.get i).pathNames
  pathNames_child : ∀ {i p : Nat}, i < t.size → (t.get i).parent = some p →
    (t.get i).pathNames = (t.get p).pathNames ++ [(t.get i).name]

section Aggregate
variable {rootPaths : List Path} {files : List SourceFile} {classes : List ClassInfo}

theorem isModulePath_names_slotOf {k : ModuleKey}
    (hk : k ∈ moduleKeys (ModuleRoot.ofPaths rootPaths) classes) :
    IsModulePath (slotOf (ModuleRoot.ofPaths rootPaths) files classes k).names := by
  rcases List.mem_cons.1 (names_slotOf_mem_met files hk) with htop | hmet
  · rw [htop]
    exact ModuleRoot.isModulePath_topNames rootPaths
  · obtain ⟨p, hp, hnames⟩ := List.mem_flatMap.1 hmet
    obtain ⟨c, -, rfl⟩ := List.mem_map.1 hp
    have hlength := (topNames_isPrefix (ModuleRoot.ofPaths rootPaths) c).length_le
    exact (isModulePath_ofClass rootPaths c).of_isPrefix ((mem_beginnings hlength).1 hnames).2

theorem getLast?_eq_some_getD {xs : List String} (h : xs ≠ []) :
    xs.getLast? = some (xs.getLast?.getD "") := by
  rw [List.getLast?_eq_some_getLast h, Option.getD_some]

/-- The name of a module ends its names, or its key if it was merged. -/
theorem isModulePath_concat_name {k : ModuleKey} {xs : List String}
    (hk : k ∈ moduleKeys (ModuleRoot.ofPaths rootPaths) classes) (hx : IsModulePath xs)
    (hlength : k.length = xs.length + 1) :
    IsModulePath (xs ++ [(slotOf (ModuleRoot.ofPaths rootPaths) files classes k).name]) := by
  have hspelled : IsModulePath (slotOf (ModuleRoot.ofPaths rootPaths) files classes k).names :=
    isModulePath_names_slotOf hk
  have hnames := ofNames_names_slotOf files hk
  have hkey : (slotOf (ModuleRoot.ofPaths rootPaths) files classes k).key = k := rfl
  unfold Slot.name
  split
  · have hlower := hspelled.lower
    rw [hnames] at hlower
    rw [hkey]
    exact hlower.concat hx hlength
      (getLast?_eq_some_getD (List.ne_nil_of_length_eq_add_one hlength))
  · have hn : (slotOf (ModuleRoot.ofPaths rootPaths) files classes k).names.length =
        xs.length + 1 := by
      rw [← hlength, ← congrArg List.length hnames, ModuleKey.length_ofNames]
    exact hspelled.concat hx hn (getLast?_eq_some_getD (List.ne_nil_of_length_eq_add_one hn))

theorem aggregate_path_child {i p : Nat} {names : List String}
    (hi : i < (aggregate rootPaths files classes).tree.size)
    (hp : ((aggregate rootPaths files classes).tree.get i).parent = some p)
    (h : ((aggregate rootPaths files classes).tree.get p).HasNames names) :
    ((aggregate rootPaths files classes).tree.get i).path = "/".intercalate
      (names ++ [((aggregate rootPaths files classes).tree.get i).name]) := by
  rw [aggregate_path hi, hp]
  dsimp only
  rw [h.path_eq]
  cases names with
  | nil => simp
  | cons s names =>
    have hne : ("/".intercalate (s :: names)).isEmpty = false := by
      rw [Bool.eq_false_iff]
      intro he
      exact Path.text_ofNames_ne_empty (List.cons_ne_nil s names) h.isModulePath.isName
        (String.isEmpty_iff.1 he)
    rw [hne, String.intercalate_append_of_ne_nil (List.cons_ne_nil s names) (by simp),
      String.intercalate_singleton]
    rfl

theorem aggregate_hasNames_child {i p : Nat} {names : List String}
    (hi : i < (aggregate rootPaths files classes).tree.size)
    (hp : ((aggregate rootPaths files classes).tree.get i).parent = some p)
    (h : ((aggregate rootPaths files classes).tree.get p).HasNames names) :
    ((aggregate rootPaths files classes).tree.get i).HasNames
      (names ++ [((aggregate rootPaths files classes).tree.get i).name]) := by
  have hb := aggregate_built rootPaths files classes
  have hparent := (ModuleTree.get_parent hi).symm.trans hp
  obtain ⟨s, hs⟩ := hb.linked.keyAt_parentAt hparent
  rw [← ModuleTree.get_key hi, ← ModuleTree.get_key (hb.linked.parentAt_iff.1 hparent).1.2,
    ← h.key_eq] at hs
  have hname := hb.lower_name hi
  rw [hs, List.getLast?_concat, Option.getD_some] at hname
  exact
    { path_eq := aggregate_path_child hi hp h
      key_eq := by
        rw [hs, ← hname]
        exact List.map_append
      isModulePath := by
        rw [aggregate_name hi]
        apply isModulePath_concat_name (hb.get_key_mem hi) h.isModulePath
        rw [hs, List.length_append, ModuleKey.length_ofNames, List.length_singleton] }

theorem exists_hasNames {i : Nat} (hi : i < (aggregate rootPaths files classes).tree.size) :
    ∃ names, ((aggregate rootPaths files classes).tree.get i).HasNames names := by
  have hb := aggregate_built rootPaths files classes
  -- The names of a module are put together along the chain of its parents.
  induction i using Nat.strong_induction_on with
  | h i ih =>
    cases hp : ((aggregate rootPaths files classes).tree.get i).parent with
    | none =>
      have hk := hb.get_key_mem hi
      refine ⟨_, ?_, ofNames_names_slotOf files hk, isModulePath_names_slotOf hk⟩
      rw [aggregate_path hi, hp]
    | some p =>
      have hparent := (ModuleTree.get_parent hi).symm.trans hp
      obtain ⟨names, hnames⟩ := ih p (hb.linked.parentAt_lt hparent)
        (hb.linked.parentAt_iff.1 hparent).1.2
      exact ⟨_, aggregate_hasNames_child hi hp hnames⟩

theorem aggregate_spelled (rootPaths : List Path) (files : List SourceFile)
    (classes : List ClassInfo) : Spelled (aggregate rootPaths files classes).tree := by
  have hnames : ∀ {i : Nat}, i < (aggregate rootPaths files classes).tree.size →
      ((aggregate rootPaths files classes).tree.get i).HasNames
        ((aggregate rootPaths files classes).tree.get i).pathNames := by
    intro i hi
    obtain ⟨names, h⟩ := exists_hasNames hi
    rw [h.pathNames_eq]
    exact h
  refine ⟨hnames, fun {i p} hi hp => ?_⟩
  have hb := aggregate_built rootPaths files classes
  have hparent := (ModuleTree.get_parent hi).symm.trans hp
  have hps := (hb.linked.parentAt_iff.1 hparent).1.2
  exact (aggregate_hasNames_child hi hp (hnames hps)).pathNames_eq

end Aggregate

/-! ### The places of documents -/

section Spelled
variable {roots : List ModuleRoot} {classes : List ClassInfo} {t : ModuleTree}

theorem Spelled.pathNames_inj (h : Spelled t) (hb : Built roots classes t) {i j : Nat}
    (hi : i < t.size) (hj : j < t.size) (he : (t.get i).pathNames = (t.get j).pathNames) :
    i = j := by
  apply hb.get_key_inj hi hj
  rw [← (h.hasNames hi).key_eq, ← (h.hasNames hj).key_eq, he]

theorem Spelled.path_inj (h : Spelled t) (hb : Built roots classes t) {i j : Nat}
    (hi : i < t.size) (hj : j < t.size) (he : (t.get i).path = (t.get j).path) : i = j := by
  apply h.pathNames_inj hb hi hj
  rw [ModuleNode.pathNames, ModuleNode.pathNames, he]

/-- The names of a module begin with those of the root. -/
theorem Spelled.root_isPrefix (h : Spelled t) (hb : Built roots classes t) {i : Nat}
    (hi : i < t.size) : (t.get 0).pathNames <+: (t.get i).pathNames := by
  induction i using Nat.strong_induction_on with
  | h i ih =>
    by_cases hzero : i = 0
    · exact hzero ▸ List.prefix_rfl
    · obtain ⟨p, hp, hparent, -⟩ := hb.linked.exists_parent hi hzero
      rw [h.pathNames_child hi hparent]
      exact (ih p hp (hp.trans hi)).trans (List.prefix_append _ _)

end Spelled

/-- The directory of a module's document has the module's names, but for `.`. -/
theorem IsModulePath.names_relativeDir {n : ModuleNode} (h : IsModulePath n.pathNames) :
    n.relativeDir.names = n.pathNames.filter (· ≠ ".") := by
  have hnames : n.relativeDir.names = (n.pathNames.map Component.ofName).filterMap
      Component.normal? := by
    rw [ModuleNode.relativeDir, Path.names, h.components]
  rw [hnames, List.filterMap_map, ← List.filterMap_eq_filter]
  apply List.filterMap_congr
  intro s hs
  rcases h.eq_or_isOrdinary hs with rfl | hordinary
  · rfl
  · have hne : s ≠ "." := (isOrdinary_iff_ne.1 hordinary).2.1
    simp [hordinary.ofName_eq, Option.guard, hne, Component.normal?]

theorem IsModulePath.components_documentPath {n : ModuleNode} {moduleFile : String}
    (h : IsModulePath n.pathNames) (hfile : (Path.mk moduleFile).IsTail) :
    (n.documentPath moduleFile).components =
      n.pathNames.map Component.ofName ++ (Path.mk moduleFile).components := by
  rw [ModuleNode.documentPath, ModuleNode.relativeDir]
  by_cases hnil : n.pathNames = []
  · have hjoin : (Path.ofNames []).join ⟨moduleFile⟩ = ⟨moduleFile⟩ := by
      simp [Path.join, Path.ofNames, hfile.isAbsolute]
    rw [hnil, hjoin]
    rfl
  · rw [Path.components_join (Path.text_ofNames_ne_empty hnil h.isName) hfile, h.components]

end CodeAtlas
