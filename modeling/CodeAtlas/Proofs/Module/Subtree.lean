import Mathlib.Data.List.Sort
import CodeAtlas.Proofs.Module.Arena

/-!
# What lies below a node

The nodes at or below one are those whose keys begin with its key. They come as the node itself and
then, child after child, what lies below each child, and this is the order in which a walk visits
them.
-/
namespace CodeAtlas

def keyAt (nodes : List ModuleNode) (i : Nat) : ModuleKey := (nodes[i]?.map (·.key)).getD []

def belowAt (nodes : List ModuleNode) (i : Nat) : List Nat :=
  (List.range nodes.length).filter fun j => keyAt nodes i <+: keyAt nodes j

section Linked
variable {top : ModuleKey} {nodes : List ModuleNode}

theorem getElem?_map_key {i : Nat} (hi : i < nodes.length) :
    (nodes.map (·.key))[i]? = some (keyAt nodes i) := by
  simp [keyAt, hi]

theorem keyAt_of_getElem? {i : Nat} {k : ModuleKey} (h : (nodes.map (·.key))[i]? = some k) :
    i < nodes.length ∧ keyAt nodes i = k := by
  rw [List.getElem?_map] at h
  obtain ⟨n, hn, rfl⟩ := Option.map_eq_some_iff.1 h
  exact ⟨(List.getElem?_eq_some_iff.1 hn).1, by simp [keyAt, hn]⟩

theorem Linked.keyAt_lt (h : Linked top nodes) {i j : Nat} (hij : i < j) (hj : j < nodes.length) :
    keyAt nodes i < keyAt nodes j :=
  lt_of_index_lt h.treeKeys.ascending (getElem?_map_key (hij.trans hj)) (getElem?_map_key hj) hij

theorem Linked.lt_of_keyAt_lt (h : Linked top nodes) {i j : Nat} (hi : i < nodes.length)
    (hj : j < nodes.length) (hk : keyAt nodes i < keyAt nodes j) : i < j :=
  index_lt_of_lt h.treeKeys.ascending (getElem?_map_key hi) (getElem?_map_key hj) hk

theorem Linked.keyAt_inj (h : Linked top nodes) {i j : Nat} (hi : i < nodes.length)
    (hj : j < nodes.length) (hk : keyAt nodes i = keyAt nodes j) : i = j :=
  index_unique h.treeKeys.ascending (getElem?_map_key hi) (hk ▸ getElem?_map_key hj)

theorem Linked.keyAt_mem {i : Nat} (hi : i < nodes.length) : keyAt nodes i ∈ nodes.map (·.key) :=
  List.mem_of_getElem? (getElem?_map_key hi)

theorem Linked.exists_keyAt {k : ModuleKey} (hk : k ∈ nodes.map (·.key)) :
    ∃ i < nodes.length, keyAt nodes i = k := by
  obtain ⟨i, hi⟩ := List.mem_iff_getElem?.1 hk
  exact ⟨i, keyAt_of_getElem? hi⟩

theorem Linked.parentAt_iff (h : Linked top nodes) {i p : Nat} :
    parentAt nodes i = some p ↔ (i < nodes.length ∧ p < nodes.length) ∧
      keyAt nodes i ≠ top ∧ keyAt nodes p = (keyAt nodes i).dropLast := by
  rw [h.parentAt_eq_some]
  constructor
  · rintro ⟨k, hik, hne, hpk⟩
    obtain ⟨hi, rfl⟩ := keyAt_of_getElem? hik
    obtain ⟨hp, he⟩ := keyAt_of_getElem? hpk
    exact ⟨⟨hi, hp⟩, hne, he⟩
  · rintro ⟨⟨hi, hp⟩, hne, he⟩
    exact ⟨_, getElem?_map_key hi, hne, he ▸ getElem?_map_key hp⟩

theorem Linked.keyAt_ne_nil (h : Linked top nodes) {i : Nat} (hi : i < nodes.length)
    (hne : keyAt nodes i ≠ top) : keyAt nodes i ≠ [] := by
  have := h.treeKeys.length_lt (Linked.keyAt_mem hi) hne
  exact List.ne_nil_of_length_pos (by omega)

theorem Linked.keyAt_parentAt (h : Linked top nodes) {i p : Nat} (hp : parentAt nodes i = some p) :
    ∃ s, keyAt nodes i = keyAt nodes p ++ [s] := by
  obtain ⟨⟨hi, -⟩, hne, he⟩ := h.parentAt_iff.1 hp
  have hnil := h.keyAt_ne_nil hi hne
  exact ⟨(keyAt nodes i).getLast hnil, by rw [he, List.dropLast_append_getLast]⟩

theorem Linked.parentAt_lt (h : Linked top nodes) {i p : Nat} (hp : parentAt nodes i = some p) :
    p < i := by
  obtain ⟨⟨hi, hpn⟩, -⟩ := h.parentAt_iff.1 hp
  obtain ⟨s, hs⟩ := h.keyAt_parentAt hp
  refine h.lt_of_keyAt_lt hpn hi (ModuleKey.lt_of_isPrefix ⟨[s], hs.symm⟩ fun he => ?_)
  have hlen := congrArg List.length (he.trans hs)
  simp at hlen

theorem Linked.exists_parentAt (h : Linked top nodes) {i : Nat} (hi : i < nodes.length)
    (hne : keyAt nodes i ≠ top) : ∃ p, parentAt nodes i = some p := by
  obtain ⟨p, hp, he⟩ := Linked.exists_keyAt
    (h.treeKeys.dropLast_mem _ (Linked.keyAt_mem hi) hne)
  exact ⟨p, h.parentAt_iff.2 ⟨⟨hi, hp⟩, hne, he⟩⟩

theorem Linked.length_pos (h : Linked top nodes) : 0 < nodes.length := by
  obtain ⟨i, hi, -⟩ := Linked.exists_keyAt h.treeKeys.top_mem
  exact Nat.zero_lt_of_lt hi

theorem Linked.keyAt_eq_top (h : Linked top nodes) {i : Nat} (hi : i < nodes.length) :
    keyAt nodes i = top ↔ i = 0 := by
  obtain ⟨j, hj, htop⟩ := Linked.exists_keyAt h.treeKeys.top_mem
  have hzero : j = 0 := by
    by_contra hne
    have hlt := h.keyAt_lt (Nat.pos_of_ne_zero hne) hj
    rw [htop] at hlt
    have hpre := h.treeKeys.top_isPrefix _ (Linked.keyAt_mem h.length_pos)
    by_cases he : top = keyAt nodes 0
    · exact absurd (he ▸ hlt) (lt_irrefl _)
    · exact absurd (ModuleKey.lt_of_isPrefix hpre he) hlt.asymm
  subst hzero
  exact ⟨fun he => h.keyAt_inj hi hj (he.trans htop.symm), fun he => he ▸ htop⟩

theorem mem_childrenAt {i c : Nat} :
    c ∈ childrenAt nodes i ↔ c < nodes.length ∧ parentAt nodes c = some i := by
  simp [childrenAt]

theorem mem_belowAt {i j : Nat} :
    j ∈ belowAt nodes i ↔ j < nodes.length ∧ keyAt nodes i <+: keyAt nodes j := by
  simp [belowAt]

theorem belowAt_ascending (i : Nat) : (belowAt nodes i).Pairwise (· < ·) :=
  List.pairwise_lt_range.filter _

theorem mem_belowAt_self {i : Nat} (hi : i < nodes.length) : i ∈ belowAt nodes i :=
  mem_belowAt.2 ⟨hi, List.prefix_refl _⟩

theorem Linked.mem_belowAt_parent (h : Linked top nodes) {i j p : Nat}
    (hp : parentAt nodes j = some p) (hj : j ∈ belowAt nodes i) (hne : j ≠ i)
    (hi : i < nodes.length) : p ∈ belowAt nodes i := by
  obtain ⟨hjn, hpre⟩ := mem_belowAt.1 hj
  obtain ⟨s, hs⟩ := h.keyAt_parentAt hp
  refine mem_belowAt.2 ⟨(h.parentAt_iff.1 hp).1.2, ?_⟩
  rw [hs, List.prefix_concat_iff, ← hs] at hpre
  exact hpre.resolve_left fun he => hne (h.keyAt_inj hjn hi he.symm)

theorem Linked.mem_belowAt_of_parentAt (h : Linked top nodes) {i j p : Nat}
    (hp : parentAt nodes j = some p) (hpi : p ∈ belowAt nodes i) : j ∈ belowAt nodes i := by
  obtain ⟨s, hs⟩ := h.keyAt_parentAt hp
  refine mem_belowAt.2 ⟨(h.parentAt_iff.1 hp).1.1, ?_⟩
  exact (mem_belowAt.1 hpi).2.trans ⟨[s], hs.symm⟩

theorem Linked.keyAt_ne_top_of_mem_belowAt (h : Linked top nodes) {i j : Nat}
    (hi : i < nodes.length) (hj : j ∈ belowAt nodes i) (hne : j ≠ i) : keyAt nodes j ≠ top := by
  obtain ⟨hjn, hpre⟩ := mem_belowAt.1 hj
  intro he
  have htop := h.treeKeys.top_isPrefix _ (Linked.keyAt_mem hi)
  have heq := hpre.eq_of_length_le (he ▸ htop.length_le)
  exact hne (h.keyAt_inj hjn hi heq.symm)

/-- A node lies below another exactly if it is this one or lies below one of its children. -/
theorem Linked.mem_belowAt_iff (h : Linked top nodes) {i : Nat} (hi : i < nodes.length) {j : Nat} :
    j ∈ belowAt nodes i ↔ j = i ∨ ∃ c ∈ childrenAt nodes i, j ∈ belowAt nodes c := by
  constructor
  · intro hj
    -- The chain of parents from `j` leads to `i`; its last link but one is the child.
    induction j using Nat.strong_induction_on with
    | h j ih =>
      by_cases hne : j = i
      · exact Or.inl hne
      · have hjn := (mem_belowAt.1 hj).1
        obtain ⟨p, hp⟩ := h.exists_parentAt hjn (h.keyAt_ne_top_of_mem_belowAt hi hj hne)
        rcases ih p (h.parentAt_lt hp) (h.mem_belowAt_parent hp hj hne hi) with rfl | ⟨c, hc, hpc⟩
        · exact Or.inr ⟨j, mem_childrenAt.2 ⟨hjn, hp⟩, mem_belowAt_self hjn⟩
        · exact Or.inr ⟨c, hc, h.mem_belowAt_of_parentAt hp hpc⟩
  · rintro (rfl | ⟨c, hc, hj⟩)
    · exact mem_belowAt_self hi
    · obtain ⟨s, hs⟩ := h.keyAt_parentAt (mem_childrenAt.1 hc).2
      obtain ⟨hjn, hpre⟩ := mem_belowAt.1 hj
      exact mem_belowAt.2 ⟨hjn, List.IsPrefix.trans ⟨[s], hs.symm⟩ hpre⟩

theorem Linked.belowAt_zero (h : Linked top nodes) : belowAt nodes 0 = List.range nodes.length := by
  rw [belowAt, List.filter_eq_self]
  intro j hj
  rw [(h.keyAt_eq_top h.length_pos).2 rfl]
  exact decide_eq_true (h.treeKeys.top_isPrefix _ (Linked.keyAt_mem (List.mem_range.1 hj)))

theorem Linked.lt_of_mem_childrenAt (h : Linked top nodes) {i c : Nat}
    (hc : c ∈ childrenAt nodes i) : i < c :=
  h.parentAt_lt (mem_childrenAt.1 hc).2

theorem Linked.le_of_mem_belowAt (h : Linked top nodes) {i j : Nat} (hi : i < nodes.length)
    (hj : j ∈ belowAt nodes i) : i ≤ j := by
  obtain ⟨hjn, hpre⟩ := mem_belowAt.1 hj
  by_contra hlt
  have hlt := h.keyAt_lt (Nat.not_le.1 hlt) hi
  by_cases he : keyAt nodes i = keyAt nodes j
  · exact lt_irrefl _ (he ▸ hlt)
  · exact absurd (ModuleKey.lt_of_isPrefix hpre he) hlt.asymm

/-- What lies below one child stands before what lies below a later one. -/
theorem Linked.lt_of_mem_belowAt_childrenAt (h : Linked top nodes) {i c c' x y : Nat}
    (hc : c ∈ childrenAt nodes i) (hc' : c' ∈ childrenAt nodes i) (hlt : c < c')
    (hx : x ∈ belowAt nodes c) (hy : y ∈ belowAt nodes c') : x < y := by
  obtain ⟨hcn, hcp⟩ := mem_childrenAt.1 hc
  obtain ⟨hcn', hcp'⟩ := mem_childrenAt.1 hc'
  obtain ⟨hxn, hxp⟩ := mem_belowAt.1 hx
  obtain ⟨hyn, hyp⟩ := mem_belowAt.1 hy
  obtain ⟨s, hs⟩ := h.keyAt_parentAt hcp
  obtain ⟨s', hs'⟩ := h.keyAt_parentAt hcp'
  have hkey := h.keyAt_lt hlt hcn'
  refine h.lt_of_keyAt_lt hxn hyn (ModuleKey.lt_of_lt_of_isPrefix hkey (fun hpre => ?_) hxp hyp)
  exact hkey.ne (hpre.eq_of_length (by simp [hs, hs']))

/-- The nodes below one are itself and then, child after child, those below its children. -/
theorem Linked.belowAt_eq (h : Linked top nodes) {i : Nat} (hi : i < nodes.length) :
    belowAt nodes i = i :: (childrenAt nodes i).flatMap (belowAt nodes) := by
  -- Both sides ascend, so it is enough that they have the same members.
  have hbelow : ((childrenAt nodes i).flatMap (belowAt nodes)).Pairwise (· < ·) := by
    refine List.pairwise_flatMap.2 ⟨fun c _ => belowAt_ascending c, ?_⟩
    have hchildren : (childrenAt nodes i).Pairwise (· < ·) := List.pairwise_lt_range.filter _
    exact hchildren.imp_of_mem fun hc hc' hlt x hx y hy =>
      h.lt_of_mem_belowAt_childrenAt hc hc' hlt hx hy
  have hafter : ∀ x ∈ (childrenAt nodes i).flatMap (belowAt nodes), i < x := by
    intro x hx
    obtain ⟨c, hc, hxc⟩ := List.mem_flatMap.1 hx
    exact (h.lt_of_mem_childrenAt hc).trans_le
      (h.le_of_mem_belowAt (mem_childrenAt.1 hc).1 hxc)
  refine (belowAt_ascending i).eq_of_mem_iff (List.pairwise_cons.2 ⟨hafter, hbelow⟩) fun j => ?_
  rw [h.mem_belowAt_iff hi, List.mem_cons, List.mem_flatMap]

end Linked

/-! ### The walk -/

theorem ModuleTree.length_toList (t : ModuleTree) : t.nodes.toList.length = t.size := rfl

theorem ModuleTree.getElem?_toList {t : ModuleTree} {i : Nat} (hi : i < t.size) :
    t.nodes.toList[i]? = some (t.get i) := by
  have hi : i < t.nodes.size := hi
  simp [get, Array.getD, hi]

theorem ModuleTree.toList_eq_map (t : ModuleTree) :
    t.nodes.toList = (List.range t.size).map t.get := by
  apply List.ext_getElem?
  intro i
  by_cases hi : i < t.size
  · rw [getElem?_toList hi]
    simp [hi]
  · have hi : t.nodes.size ≤ i := Nat.not_lt.1 hi
    simp [hi, size]

theorem ModuleTree.mem_toList {t : ModuleTree} {n : ModuleNode} :
    n ∈ t.nodes.toList ↔ ∃ i < t.size, t.get i = n := by
  rw [toList_eq_map, List.mem_map]
  simp only [List.mem_range]

theorem ModuleTree.get_children {top : ModuleKey} {t : ModuleTree} (h : Linked top t.nodes.toList)
    {i : Nat} (hi : i < t.size) : (t.get i).children = childrenAt t.nodes.toList i :=
  h.children_eq (getElem?_toList hi)

theorem ModuleTree.get_parent {t : ModuleTree} {i : Nat} (hi : i < t.size) :
    (t.get i).parent = parentAt t.nodes.toList i := by
  simp [parentAt, getElem?_toList hi]

theorem ModuleTree.get_key {t : ModuleTree} {i : Nat} (hi : i < t.size) :
    (t.get i).key = keyAt t.nodes.toList i := by
  simp [keyAt, getElem?_toList hi]

theorem Linked.root_key {top : ModuleKey} {t : ModuleTree} (h : Linked top t.nodes.toList) :
    t.root.key = top := by
  rw [ModuleTree.root, ModuleTree.get_key h.length_pos]
  exact (h.keyAt_eq_top h.length_pos).2 rfl

/-- Whether the walk from a stack of ids, all of them ids of nodes, ends and has visited these. -/
inductive ModuleTree.Walks (t : ModuleTree) : List Nat → List Nat → Prop
  | done : Walks t [] []
  | visit {i : Nat} {stack visited : List Nat} (hi : i < t.size)
      (rest : Walks t ((t.get i).children ++ stack) visited) : Walks t (i :: stack) (i :: visited)

theorem ModuleTree.Walks.unique {t : ModuleTree} {stack visited visited' : List Nat}
    (h : t.Walks stack visited) (h' : t.Walks stack visited') : visited = visited' := by
  induction h generalizing visited' with
  | done =>
    cases h'
    rfl
  | visit _ _ ih =>
    cases h' with
    | visit _ rest => rw [ih rest]

/-- With fuel for each visit the walk goes to its end. -/
theorem ModuleTree.Walks.walk_eq {t : ModuleTree} {stack visited : List Nat}
    (h : t.Walks stack visited) {fuel : Nat} (hf : visited.length ≤ fuel) :
    t.walk fuel stack = visited := by
  induction h generalizing fuel with
  | done => cases fuel <;> rfl
  | visit _ _ ih =>
    cases fuel with
    | zero => simp at hf
    | succ fuel => rw [walk, ih (by simpa using hf)]

/-- From any ids the walk ends and has visited what lies below each of them. -/
theorem ModuleTree.walks_flatMap {top : ModuleKey} {t : ModuleTree}
    (h : Linked top t.nodes.toList) {stack : List Nat} (hs : ∀ i ∈ stack, i < t.size) :
    t.Walks stack (stack.flatMap (belowAt t.nodes.toList)) := by
  induction hn : (stack.flatMap (belowAt t.nodes.toList)).length generalizing stack with
  | zero =>
    cases stack with
    | nil => exact .done
    | cons i stack =>
      rw [List.flatMap_cons, h.belowAt_eq (hs i List.mem_cons_self)] at hn
      simp at hn
  | succ n ih =>
    cases stack with
    | nil => simp at hn
    | cons i stack =>
      have hi := hs i List.mem_cons_self
      have hstep : (i :: stack).flatMap (belowAt t.nodes.toList) =
          i :: ((t.get i).children ++ stack).flatMap (belowAt t.nodes.toList) := by
        rw [List.flatMap_cons, h.belowAt_eq hi, List.flatMap_append, List.cons_append,
          get_children h hi]
      rw [hstep] at hn ⊢
      refine .visit hi (ih (fun j hj => ?_) (Nat.succ.inj hn))
      rcases List.mem_append.1 hj with hj | hj
      · rw [get_children h hi] at hj
        exact (mem_childrenAt.1 hj).1
      · exact hs j (List.mem_cons_of_mem i hj)

/-- With fuel for all that lies below the nodes on the stack, the walk visits just that. -/
theorem ModuleTree.walk_eq {top : ModuleKey} {t : ModuleTree} (h : Linked top t.nodes.toList)
    {fuel : Nat} {stack : List Nat} (hs : ∀ i ∈ stack, i < t.size)
    (hf : (stack.flatMap (belowAt t.nodes.toList)).length ≤ fuel) :
    t.walk fuel stack = stack.flatMap (belowAt t.nodes.toList) :=
  (walks_flatMap h hs).walk_eq hf

theorem ModuleTree.subtree_eq {top : ModuleKey} {t : ModuleTree} (h : Linked top t.nodes.toList)
    {i : Nat} (hi : i < t.size) : t.subtree i = belowAt t.nodes.toList i := by
  rw [subtree, walk_eq h (by simpa using hi), List.flatMap_singleton]
  rw [List.flatMap_singleton, belowAt]
  exact (List.length_filter_le _ _).trans (by simp [size])

end CodeAtlas
