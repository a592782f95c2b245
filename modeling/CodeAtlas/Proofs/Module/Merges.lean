import CodeAtlas.Proofs.Module.Ownership
import CodeAtlas.Proofs.Module.SameModules

/-!
# Merges of directories

Directories whose classes meet in one module have names that agree in small letters. If the names
are not spelled alike, a warning lists two spellings. If they are, the directories stand at the same
place below two roots of one name, and nothing tells that they are two.
-/
namespace CodeAtlas
open Slots

/-! ### Directories made of names -/

def Path.IsStraight (p : Path) : Prop := ∀ c ∈ p.components, c = .root ∨ ∃ s, c = .normal s

instance (p : Path) : Decidable p.IsStraight :=
  decidable_of_iff (∀ c ∈ p.components, c = .root ∨ c.normal?.isSome) <| by
    simp only [Path.IsStraight, Option.isSome_iff_exists, Component.normal?_eq_some]

theorem Path.root_not_mem_bodyComponents (isFirst : Bool) (fields : List (List Char)) :
    .root ∉ bodyComponents isFirst fields := by
  induction fields generalizing isFirst with
  | nil => simp [bodyComponents]
  | cons f fields ih =>
    rw [bodyComponents_cons, List.mem_append, not_or]
    refine ⟨?_, ih false⟩
    rw [Option.mem_toList]
    unfold Component.ofField?
    grind

theorem Component.map_normal_filterMap {cs : List Component} (h : ∀ c ∈ cs, ∃ s, c = normal s) :
    (cs.filterMap normal?).map normal = cs := by
  induction cs with
  | nil => rfl
  | cons c cs ih =>
    obtain ⟨s, rfl⟩ := h c List.mem_cons_self
    have hs : (normal s).normal? = some s := rfl
    rw [List.filterMap_cons_some hs, List.map_cons, ih fun c hc => h c (List.mem_cons_of_mem _ hc)]

theorem Path.IsStraight.components_eq {p : Path} (h : p.IsStraight) :
    p.components = (if p.isAbsolute then [.root] else []) ++ p.names.map .normal := by
  have hnames : p.names = (bodyComponents (!p.isAbsolute)
      (Text.fields '/' p.text.toList)).filterMap Component.normal? := by
    rw [names, components_eq_bodyComponents, List.filterMap_append]
    cases p.isAbsolute <;> rfl
  rw [hnames, Component.map_normal_filterMap, ← components_eq_bodyComponents]
  intro c hc
  have hmem : c ∈ p.components := by
    rw [components_eq_bodyComponents]
    exact List.mem_append_right _ hc
  refine (h c hmem).resolve_left ?_
  rintro rfl
  exact root_not_mem_bodyComponents _ _ hc

theorem Path.head?_components (p : Path) :
    p.components.head? = some .root ↔ p.isAbsolute = true := by
  rw [components_eq_bodyComponents]
  cases p.isAbsolute with
  | true => simp
  | false =>
    have hroot := root_not_mem_bodyComponents true (Text.fields '/' p.text.toList)
    have hhead := fun h => hroot (List.mem_of_head? h)
    simpa using hhead

/-- All directories below a path with components begin at the root, or none does. -/
theorem Path.isAbsolute_eq_of_contains {p dir : Path} (h : p.Contains dir)
    (hne : p.components ≠ []) : dir.isAbsolute = p.isAbsolute := by
  obtain ⟨below, hbelow⟩ := h
  rw [Bool.eq_iff_iff, ← head?_components, ← head?_components, ← hbelow,
    List.head?_append_of_ne_nil _ hne]

def Path.namesBelow (p dir : Path) : List String :=
  (dir.components.drop p.components.length).filterMap Component.normal?

theorem Path.names_eq_append {p dir : Path} (h : p.Contains dir) :
    dir.names = p.names ++ p.namesBelow dir := by
  rw [names, names, namesBelow, ← List.filterMap_append, List.prefix_iff_eq_append.1 h]

/-- Below one path, directories are told apart by their names. -/
theorem Path.IsStraight.components_eq_of_namesBelow {p q a b : Path} (ha : a.IsStraight)
    (hb : b.IsStraight) (hp : p.Contains a) (hq : q.Contains b)
    (hsame : p.components = q.components) (habsolute : a.isAbsolute = b.isAbsolute)
    (hbelow : p.namesBelow a = q.namesBelow b) : a.components = b.components := by
  have hnames : a.names = b.names := by
    rw [names_eq_append hp, names_eq_append hq, hbelow, names, names, hsame]
  rw [ha.components_eq, hb.components_eq, hnames, habsolute]

/-- Whether directories have the same names below their innermost roots, and these one label. The
roots are two, or a single one without components, which absolute and relative paths go below. -/
def Path.SamePlace (rootPaths : List Path) (a b : Path) : Prop :=
  ∃ p q, Innermost rootPaths a p ∧ Innermost rootPaths b q ∧
    (ModuleRoot.ofPath p).label = (ModuleRoot.ofPath q).label ∧ p.namesBelow a = q.namesBelow b ∧
    (p.components ≠ q.components ∨ p.components = [] ∧ a.isAbsolute ≠ b.isAbsolute)

/-- Directories that are not the same but have the same names are at the same place below roots. -/
theorem Path.IsStraight.samePlace {rootPaths : List Path} {a b : Path} (ha : a.IsStraight)
    (hb : b.IsStraight) (hne : a.components ≠ b.components) (hra : ∃ q ∈ rootPaths, q.Contains a)
    (hrb : ∃ q ∈ rootPaths, q.Contains b)
    (hnames : ModuleRoot.moduleNames? (ModuleRoot.ofPaths rootPaths) a =
      ModuleRoot.moduleNames? (ModuleRoot.ofPaths rootPaths) b) : Path.SamePlace rootPaths a b := by
  obtain ⟨p, hp, hpa⟩ := ModuleRoot.moduleNames?_ofPaths hra
  obtain ⟨q, hq, hqb⟩ := ModuleRoot.moduleNames?_ofPaths hrb
  rw [hpa, hqb, Option.some_inj, List.cons_eq_cons] at hnames
  obtain ⟨hlabel, hbelow⟩ := hnames
  refine ⟨p, q, hp, hq, hlabel, hbelow, ?_⟩
  by_contra hsame
  rw [not_or, not_not, not_and, not_not] at hsame
  obtain ⟨hroots, habsolute⟩ := hsame
  refine hne (ha.components_eq_of_namesBelow hb hp.contains hq.contains hroots ?_ hbelow)
  by_cases hnil : p.components = []
  · exact habsolute hnil
  · rw [isAbsolute_eq_of_contains hp.contains hnil,
      isAbsolute_eq_of_contains hq.contains (hroots ▸ hnil), Bool.eq_iff_iff, ← head?_components,
      ← head?_components, hroots]

/-! ### Warnings about a module -/

/-- Whether a warning tells that directories spelled in these ways became one module. -/
structure ModuleNode.ToldBy (n : ModuleNode) (spellings : List String) (w : Warning) : Prop where
  kind : w.kind = .conflict
  line : w.line = none
  message : w.message = "directories differing only in case (" ++ ", ".intercalate spellings ++
    ") merged as '" ++ n.name ++ "'"
  lower_eq : ∀ s ∈ spellings, n.key.getLast? = some (Text.lower s)
  /-- It stands at a directory of the module's classes, or else at the names of the module. -/
  path : (∃ c ∈ n.classes, w.path = c.file.parent?.getD ⟨""⟩) ∨
    n.classes = [] ∧ ∃ names, ModuleKey.ofNames names = n.key ∧ w.path = Path.ofNames names

theorem one_lt_length_of_ne {α : Type} {xs : List α} {a b : α} (ha : a ∈ xs) (hb : b ∈ xs)
    (hne : a ≠ b) : 1 < xs.length := by
  by_contra hle
  obtain ⟨x, rfl⟩ := List.length_eq_one_iff.1
    (Nat.le_antisymm (Nat.not_lt.1 hle) (List.length_pos_of_mem ha))
  rw [List.mem_singleton] at ha hb
  exact hne (ha.trans hb.symm)

theorem length_topNames_le (roots : List ModuleRoot) : (ModuleRoot.topNames roots).length ≤ 1 := by
  unfold ModuleRoot.topNames
  split <;> simp

/-- Each name on the way to a class is a spelling in the slot that the names so far lead to. -/
theorem mem_spellings_take {roots : List ModuleRoot} (files : List SourceFile)
    {classes : List ClassInfo} {c : ClassInfo} (hc : c ∈ classes) {n : Nat} {s : String}
    (hs : (Placement.ofClass roots c).names[n]? = some s) :
    s ∈ (slotOf roots files classes ((classKey roots c).take (n + 1))).spellings := by
  have hn : n < (Placement.ofClass roots c).names.length := (List.getElem?_eq_some_iff.1 hs).1
  have hlength : ((Placement.ofClass roots c).names.take (n + 1)).length = n + 1 :=
    List.length_take_of_le hn
  have htop := length_topNames_le roots
  refine mem_spellings_slotOf.2 ⟨(Placement.ofClass roots c).names.take (n + 1), ?_, ?_, ?_⟩
  · refine List.mem_cons_of_mem _ (List.mem_flatMap.2 ⟨_, List.mem_map_of_mem hc, ?_⟩)
    rw [mem_beginnings (topNames_isPrefix roots c).length_le, hlength]
    exact ⟨by omega, List.take_prefix _ _⟩
  · exact ModuleKey.ofNames_take _ _
  · rw [List.getLast?_eq_getElem?, hlength, Nat.add_sub_cancel, List.getElem?_take_of_lt (by omega),
      hs]

theorem Slot.conflict?_eq_some {s : Slot} (h : s.isMerged = true) : s.conflict? =
    some (.conflict (s.dirs.head?.getD (Path.ofNames s.names)) s.conflictMessage) := by
  rw [conflict?, if_pos h]
  rfl

section Aggregate
variable {rootPaths : List Path} {files : List SourceFile} {classes : List ClassInfo}

theorem aggregate_warnings (rootPaths : List Path) (files : List SourceFile)
    (classes : List ClassInfo) : (aggregate rootPaths files classes).warnings =
      (moduleKeys (ModuleRoot.ofPaths rootPaths) classes).filterMap fun k =>
        (slotOf (ModuleRoot.ofPaths rootPaths) files classes k).conflict? := by
  simp only [aggregate, slotsOf_eq, List.filterMap_map]
  rfl

theorem toldBy_of_conflict? {i : Nat} (hi : i < (aggregate rootPaths files classes).tree.size)
    {w : Warning} (hw : (slotOf (ModuleRoot.ofPaths rootPaths) files classes
      ((aggregate rootPaths files classes).tree.get i).key).conflict? = some w) :
    ((aggregate rootPaths files classes).tree.get i).ToldBy
      (slotOf (ModuleRoot.ofPaths rootPaths) files classes
        ((aggregate rootPaths files classes).tree.get i).key).spellings w := by
  have hb := aggregate_built rootPaths files classes
  have hk := hb.get_key_mem hi
  have hname := aggregate_name hi
  have hclasses := fun c => hb.mem_get_classes hi (c := c)
  generalize (aggregate rootPaths files classes).tree.get i = n at hw hk hname hclasses ⊢
  rw [Slot.conflict?, Option.ite_none_right_eq_some] at hw
  obtain ⟨-, hw⟩ := hw
  obtain rfl := Option.some.inj hw
  constructor
  case kind => rfl
  case line => rfl
  case message =>
    rw [hname]
    rfl
  case lower_eq =>
    intro s hs
    obtain ⟨names, -, hkey, hlast⟩ := mem_spellings_slotOf.1 hs
    rw [← hkey, ModuleKey.ofNames, List.getLast?_map, hlast, Option.map_some]
  case path =>
    have hdirs : (slotOf (ModuleRoot.ofPaths rootPaths) files classes n.key).dirs =
        sortedSet Path.cmp (((classes.map (Placement.ofClass
          (ModuleRoot.ofPaths rootPaths))).filter fun p => p.key = n.key).map (·.dir)) := rfl
    cases hhead : (slotOf (ModuleRoot.ofPaths rootPaths) files classes n.key).dirs.head? with
    | some dir =>
      refine Or.inl ?_
      have hmem := mem_of_mem_sortedSet (hdirs ▸ List.mem_of_head? hhead)
      obtain ⟨p, hp, rfl⟩ := List.mem_map.1 hmem
      obtain ⟨hp, hkey⟩ := List.mem_filter.1 hp
      obtain ⟨c, hc, rfl⟩ := List.mem_map.1 hp
      exact ⟨c, (hclasses c).2 ⟨hc, of_decide_eq_true hkey⟩, rfl⟩
    | none =>
      refine Or.inr ⟨?_, _, ofNames_names_slotOf files hk, rfl⟩
      rw [List.head?_eq_none_iff, hdirs, sortedSet_eq_nil, List.map_eq_nil_iff,
        List.filter_eq_nil_iff] at hhead
      rw [List.eq_nil_iff_forall_not_mem]
      intro c hc
      obtain ⟨hc, hkey⟩ := (hclasses c).1 hc
      exact hhead _ (List.mem_map_of_mem hc) (decide_eq_true hkey)

theorem exists_toldBy_of_isMerged {i : Nat} (hi : i < (aggregate rootPaths files classes).tree.size)
    (hmerged : 1 < (slotOf (ModuleRoot.ofPaths rootPaths) files classes
      ((aggregate rootPaths files classes).tree.get i).key).spellings.length) :
    ∃ w ∈ (aggregate rootPaths files classes).warnings,
      ((aggregate rootPaths files classes).tree.get i).ToldBy
        (slotOf (ModuleRoot.ofPaths rootPaths) files classes
          ((aggregate rootPaths files classes).tree.get i).key).spellings w := by
  have hconflict := Slot.conflict?_eq_some (decide_eq_true hmerged)
  refine ⟨_, ?_, toldBy_of_conflict? hi hconflict⟩
  rw [aggregate_warnings]
  exact List.mem_filterMap.2 ⟨_, (aggregate_built _ _ _).get_key_mem hi, hconflict⟩

/-- Where the names of two classes of one module are not spelled alike, a warning lists both
spellings of a name, for the module or one above it. -/
theorem exists_toldBy_of_names_ne {a b : ClassInfo} (ha : a ∈ classes) (hb : b ∈ classes) {i : Nat}
    (hi : i < (aggregate rootPaths files classes).tree.size)
    (hka : classKey (ModuleRoot.ofPaths rootPaths) a =
      ((aggregate rootPaths files classes).tree.get i).key)
    (hkb : classKey (ModuleRoot.ofPaths rootPaths) b =
      ((aggregate rootPaths files classes).tree.get i).key)
    (hne : (Placement.ofClass (ModuleRoot.ofPaths rootPaths) a).names ≠
      (Placement.ofClass (ModuleRoot.ofPaths rootPaths) b).names) :
    ∃ j < (aggregate rootPaths files classes).tree.size,
      i ∈ (aggregate rootPaths files classes).tree.subtree j ∧
      ∃ w ∈ (aggregate rootPaths files classes).warnings, ∃ spellings,
        ((aggregate rootPaths files classes).tree.get j).ToldBy spellings w ∧
        ∃ s ∈ (Placement.ofClass (ModuleRoot.ofPaths rootPaths) a).names,
          ∃ s' ∈ (Placement.ofClass (ModuleRoot.ofPaths rootPaths) b).names,
            s ≠ s' ∧ s ∈ spellings ∧ s' ∈ spellings := by
  have htree := aggregate_built rootPaths files classes
  have hlength : (Placement.ofClass (ModuleRoot.ofPaths rootPaths) a).names.length =
      (Placement.ofClass (ModuleRoot.ofPaths rootPaths) b).names.length := by
    have hkeys := congrArg List.length (hka.trans hkb.symm)
    rwa [classKey, classKey, Placement.key, Placement.key, ModuleKey.length_ofNames,
      ModuleKey.length_ofNames] at hkeys
  obtain ⟨n, hn⟩ := not_forall.1 fun h => hne (List.ext_getElem? h)
  have hlt : n < (Placement.ofClass (ModuleRoot.ofPaths rootPaths) a).names.length := by
    by_contra hle
    rw [List.getElem?_eq_none (by omega), List.getElem?_eq_none (by omega)] at hn
    exact hn rfl
  obtain ⟨s, hs⟩ : ∃ s, (Placement.ofClass (ModuleRoot.ofPaths rootPaths) a).names[n]? = some s :=
    ⟨_, List.getElem?_eq_getElem hlt⟩
  obtain ⟨s', hs'⟩ :
      ∃ s, (Placement.ofClass (ModuleRoot.ofPaths rootPaths) b).names[n]? = some s :=
    ⟨_, List.getElem?_eq_getElem (hlength ▸ hlt)⟩
  have hdiffer : s ≠ s' := by
    rintro rfl
    exact hn (hs.trans hs'.symm)
  -- The names first differ in spelling, and the slot that they lead to so far has both spellings.
  have htop := length_topNames_le (ModuleRoot.ofPaths rootPaths)
  have hklength : (classKey (ModuleRoot.ofPaths rootPaths) a).length =
      (Placement.ofClass (ModuleRoot.ofPaths rootPaths) a).names.length :=
    ModuleKey.length_ofNames _
  have hmem : (classKey (ModuleRoot.ofPaths rootPaths) a).take (n + 1) ∈
      moduleKeys (ModuleRoot.ofPaths rootPaths) classes := by
    refine mem_moduleKeys.2 (Or.inr ⟨a, ha, ?_, List.take_prefix _ _⟩)
    rw [List.length_take_of_le (by omega), topKey, ModuleKey.length_ofNames]
    omega
  obtain ⟨j, hj, hkj⟩ := htree.exists_get_key hmem
  have hspelled := mem_spellings_take files ha hs
  have hspelled' := mem_spellings_take files hb hs'
  rw [hkb, ← hka] at hspelled'
  rw [← hkj] at hspelled hspelled'
  obtain ⟨w, hw, htold⟩ :=
    exists_toldBy_of_isMerged hj (one_lt_length_of_ne hspelled hspelled' hdiffer)
  refine ⟨j, hj, ?_, w, hw, _, htold, s, List.mem_of_getElem? hs, s', List.mem_of_getElem? hs',
    hdiffer, hspelled, hspelled'⟩
  rw [ModuleTree.subtree_eq htree.linked hj, mem_belowAt, ← ModuleTree.get_key hj,
    ← ModuleTree.get_key hi, hkj, ← hka]
  exact ⟨hi, List.take_prefix _ _⟩

/-- Directories made of names meet in a module with a warning for it or for a module above it,
unless they stand at the same place below two roots of one label. -/
theorem aggregate_merges {a b : ClassInfo} (ha : a ∈ classes) (hb : b ∈ classes)
    {dirA dirB : Path} (hdirA : a.file.parent? = some dirA) (hdirB : b.file.parent? = some dirB)
    (hsA : dirA.IsStraight) (hsB : dirB.IsStraight) (hne : dirA.components ≠ dirB.components)
    (hrA : ∃ q ∈ rootPaths, q.Contains dirA) (hrB : ∃ q ∈ rootPaths, q.Contains dirB)
    {i : Nat} (hi : i < (aggregate rootPaths files classes).tree.size)
    (hai : a ∈ ((aggregate rootPaths files classes).tree.get i).classes)
    (hbi : b ∈ ((aggregate rootPaths files classes).tree.get i).classes) :
    (∃ j < (aggregate rootPaths files classes).tree.size,
      i ∈ (aggregate rootPaths files classes).tree.subtree j ∧
      ∃ w ∈ (aggregate rootPaths files classes).warnings, ∃ spellings,
        ((aggregate rootPaths files classes).tree.get j).ToldBy spellings w ∧
        ∃ s ∈ spellings, ∃ s' ∈ spellings, s ≠ s') ∨
      Path.SamePlace rootPaths dirA dirB := by
  have htree := aggregate_built rootPaths files classes
  by_cases hnames : (Placement.ofClass (ModuleRoot.ofPaths rootPaths) a).names =
      (Placement.ofClass (ModuleRoot.ofPaths rootPaths) b).names
  · refine Or.inr (hsA.samePlace hsB hne hrA hrB ?_)
    obtain ⟨p, -, hp⟩ := ModuleRoot.moduleNames?_ofPaths hrA
    obtain ⟨q, -, hq⟩ := ModuleRoot.moduleNames?_ofPaths hrB
    simp only [Placement.ofClass, hdirA, hdirB, Option.getD_some, hp, hq] at hnames
    rw [hp, hq, hnames]
  · obtain ⟨j, hj, hij, w, hw, spellings, htold, s, -, s', -, hdiffer, hs, hs'⟩ :=
      exists_toldBy_of_names_ne ha hb hi ((htree.mem_get_classes hi).1 hai).2
        ((htree.mem_get_classes hi).1 hbi).2 hnames
    exact Or.inl ⟨j, hj, hij, w, hw, spellings, htold, s, hs, s', hs', hdiffer⟩

/-- `/r/p/Models/sub` and `/r/p/models/sub` meet below the module that the warning is for. -/
theorem merges_letterCase :
    let a : ClassInfo := ⟨"A", ⟨"/r/p/Models/sub/a.py"⟩, 1, 0, 1, 1⟩
    let b : ClassInfo := ⟨"B", ⟨"/r/p/models/sub/b.py"⟩, 1, 0, 1, 1⟩
    let result := aggregate [⟨"/r/p"⟩] [] [a, b]
    a ∈ (result.tree.get 2).classes ∧ b ∈ (result.tree.get 2).classes ∧
      ((∃ j < result.tree.size, 2 ∈ result.tree.subtree j ∧
        ∃ w ∈ result.warnings, ∃ spellings, (result.tree.get j).ToldBy spellings w ∧
          ∃ s ∈ spellings, ∃ s' ∈ spellings, s ≠ s') ∨
        Path.SamePlace [⟨"/r/p"⟩] ⟨"/r/p/Models/sub"⟩ ⟨"/r/p/models/sub"⟩) := by
  intro a b result
  have hi : 2 < result.tree.size := by decide +kernel
  have ha : a ∈ [a, b] := List.mem_cons_self
  have hb : b ∈ [a, b] := List.mem_cons_of_mem _ List.mem_cons_self
  have htree := aggregate_built [⟨"/r/p"⟩] [] [a, b]
  have hai : a ∈ (result.tree.get 2).classes :=
    (htree.mem_get_classes hi).2 ⟨ha, by decide +kernel⟩
  have hbi : b ∈ (result.tree.get 2).classes :=
    (htree.mem_get_classes hi).2 ⟨hb, by decide +kernel⟩
  exact ⟨hai, hbi, aggregate_merges ha hb (by decide) (by decide) (by decide +kernel)
    (by decide +kernel) (by decide) ⟨⟨"/r/p"⟩, List.mem_cons_self, by decide⟩
    ⟨⟨"/r/p"⟩, List.mem_cons_self, by decide⟩ hi hai hbi⟩

/-- The directories `/a/pkg` and `/b/pkg`, both roots, become one module without a warning. -/
theorem not_forall_merge_warned :
    ¬ ∀ (rootPaths : List Path) (files : List SourceFile) (classes : List ClassInfo),
      ∀ a ∈ classes, ∀ b ∈ classes, ∀ dirA dirB,
        a.file.parent? = some dirA → b.file.parent? = some dirB →
        dirA.IsStraight → dirB.IsStraight → dirA.components ≠ dirB.components →
        (∃ q ∈ rootPaths, q.Contains dirA) → (∃ q ∈ rootPaths, q.Contains dirB) →
        ∀ i < (aggregate rootPaths files classes).tree.size,
          a ∈ ((aggregate rootPaths files classes).tree.get i).classes →
          b ∈ ((aggregate rootPaths files classes).tree.get i).classes →
          ∃ j < (aggregate rootPaths files classes).tree.size,
            i ∈ (aggregate rootPaths files classes).tree.subtree j ∧
            ∃ w ∈ (aggregate rootPaths files classes).warnings, ∃ spellings,
              ((aggregate rootPaths files classes).tree.get j).ToldBy spellings w := by
  intro h
  let a : ClassInfo := ⟨"A", ⟨"/a/pkg/a.py"⟩, 1, 0, 1, 1⟩
  let b : ClassInfo := ⟨"B", ⟨"/b/pkg/b.py"⟩, 1, 0, 1, 1⟩
  have htree := aggregate_built [⟨"/a/pkg"⟩, ⟨"/b/pkg"⟩] [] [a, b]
  have hi : 1 < (aggregate [⟨"/a/pkg"⟩, ⟨"/b/pkg"⟩] [] [a, b]).tree.size := by decide +kernel
  have ha : a ∈ [a, b] := List.mem_cons_self
  have hb : b ∈ [a, b] := List.mem_cons_of_mem _ List.mem_cons_self
  obtain ⟨-, -, -, w, hw, -⟩ := h _ _ _ a ha b hb ⟨"/a/pkg"⟩ ⟨"/b/pkg"⟩ (by decide) (by decide)
    (by decide +kernel) (by decide +kernel) (by decide) ⟨⟨"/a/pkg"⟩, by simp, by decide⟩
    ⟨⟨"/b/pkg"⟩, by simp, by decide⟩ 1 hi ((htree.mem_get_classes hi).2 ⟨ha, by decide +kernel⟩)
    ((htree.mem_get_classes hi).2 ⟨hb, by decide +kernel⟩)
  have hnone : (aggregate [⟨"/a/pkg"⟩, ⟨"/b/pkg"⟩] [] [a, b]).warnings = [] := by decide +kernel
  rw [hnone] at hw
  exact List.not_mem_nil hw

end Aggregate
end CodeAtlas
