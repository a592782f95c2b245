import CodeAtlas.Module.Aggregation
import CodeAtlas.Proofs.Module.Gathering

/-!
# The nodes of a tree

Slots in the order of their keys become linked nodes: each stands at the position of its id, its
parent is the node one name up, and its children are the nodes that have it as their parent.
-/
namespace CodeAtlas

theorem map_modify {α β : Type} {f : α → β} {g : α → α} (hg : ∀ a, f (g a) = f a)
    (xs : List α) (i : Nat) : (xs.modify i g).map f = xs.map f := by
  apply List.ext_getElem?
  intro j
  simp only [List.getElem?_map, List.getElem?_modify]
  cases xs[j]? with
  | none => rfl
  | some a =>
    by_cases h : i = j <;> simp [h, hg]

theorem length_addNode (t : Nat) (nodes : List ModuleNode) (s : Slot) :
    (addNode t nodes s).length = nodes.length + 1 := by
  unfold addNode
  dsimp only
  split <;> simp

theorem map_addNode {β : Type} {f : ModuleNode → β} (hf : ∀ id n, f (addChild id n) = f n)
    (t : Nat) (nodes : List ModuleNode) (s : Slot) :
    (addNode t nodes s).map f = nodes.map f ++ [f (nodeOf t nodes s)] := by
  unfold addNode
  dsimp only
  split
  · simp
  · simp [map_modify (hf _)]

theorem nodesOf_concat (t : Nat) (slots : Slots) (s : Slot) :
    nodesOf t (slots ++ [s]) = addNode t (nodesOf t slots) s := by
  simp [nodesOf, List.foldl_append]

theorem map_nodesOf {β : Type} {f : ModuleNode → β} {g : Slot → β}
    (hf : ∀ id n, f (addChild id n) = f n) (hg : ∀ t nodes s, f (nodeOf t nodes s) = g s)
    (t : Nat) (slots : Slots) : (nodesOf t slots).map f = slots.map g := by
  induction slots using List.reverseRecOn with
  | nil => rfl
  | append_singleton slots s ih => simp [nodesOf_concat, map_addNode hf, hg, ih]

theorem map_key_nodesOf (t : Nat) (slots : Slots) :
    (nodesOf t slots).map (·.key) = slots.map (·.key) :=
  map_nodesOf (fun _ _ => rfl) (fun _ _ _ => rfl) t slots

theorem map_stats_nodesOf (t : Nat) (slots : Slots) :
    (nodesOf t slots).map (·.stats) = (nodesOf t slots).map (·.own) := by
  have hstats := map_nodesOf (f := fun n => n.stats) (g := fun s =>
    Stats.ofClasses (sortClasses s.classes)) (fun _ _ => rfl) (fun _ _ _ => rfl) t slots
  exact hstats.trans (map_nodesOf (fun _ _ => rfl) (fun _ _ _ => rfl) t slots).symm

theorem length_nodesOf (t : Nat) (slots : Slots) : (nodesOf t slots).length = slots.length := by
  simpa using congrArg List.length (map_key_nodesOf t slots)

theorem map_id_nodesOf (t : Nat) (slots : Slots) :
    (nodesOf t slots).map (·.id) = List.range slots.length := by
  induction slots using List.reverseRecOn with
  | nil => rfl
  | append_singleton slots s ih =>
    rw [nodesOf_concat, map_addNode fun _ _ => rfl, ih, List.length_append, List.length_singleton,
      List.range_succ, nodeOf, length_nodesOf]

def parentAt (nodes : List ModuleNode) (i : Nat) : Option Nat := nodes[i]?.bind (·.parent)

theorem parentAt_congr {nodes nodes' : List ModuleNode} {i : Nat}
    (h : (nodes.map (·.parent))[i]? = (nodes'.map (·.parent))[i]?) :
    parentAt nodes i = parentAt nodes' i := by
  simp only [List.getElem?_map] at h
  unfold parentAt
  cases hn : nodes[i]? <;> cases hn' : nodes'[i]? <;> simp_all

theorem map_parent_nodesOf (t : Nat) (slots : Slots) (s : Slot) :
    (nodesOf t (slots ++ [s])).map (·.parent) =
      (nodesOf t slots).map (·.parent) ++ [parentOf? t (nodesOf t slots) s.key] := by
  rw [nodesOf_concat, map_addNode fun _ _ => rfl, nodeOf]

theorem parentOf?_lt {t : Nat} {nodes : List ModuleNode} {k : ModuleKey} {p : Nat}
    (h : parentOf? t nodes k = some p) : p < nodes.length := by
  unfold parentOf? at h
  split at h
  · simp at h
  · exact (List.findIdx?_eq_some_iff_getElem.1 h).1

theorem parentAt_concat (t : Nat) (slots : Slots) (s : Slot) (i : Nat) :
    parentAt (nodesOf t (slots ++ [s])) i =
      if i < slots.length then parentAt (nodesOf t slots) i
      else if i = slots.length then parentOf? t (nodesOf t slots) s.key else none := by
  have hmap := congrArg (·[i]?) (map_parent_nodesOf t slots s)
  simp only [List.getElem?_map] at hmap
  unfold parentAt
  rcases lt_trichotomy i slots.length with hi | hi | hi
  · rw [if_pos hi]
    rw [List.getElem?_append_left (by simpa [length_nodesOf]), List.getElem?_map] at hmap
    cases h : (nodesOf t (slots ++ [s]))[i]? <;> cases h' : (nodesOf t slots)[i]? <;> simp_all
  · rw [if_neg (by omega), if_pos hi]
    rw [List.getElem?_append_right (by simp [length_nodesOf, hi])] at hmap
    cases h : (nodesOf t (slots ++ [s]))[i]? <;> simp_all [length_nodesOf]
  · rw [if_neg (by omega), if_neg (by omega), List.getElem?_eq_none]
    · rfl
    · simp [length_nodesOf]
      omega

theorem parentAt_lt {t : Nat} {slots : Slots} {i p : Nat}
    (h : parentAt (nodesOf t slots) i = some p) : p < i := by
  induction slots using List.reverseRecOn with
  | nil => simp [nodesOf, parentAt] at h
  | append_singleton slots s ih =>
    rw [parentAt_concat] at h
    split at h
    · exact ih h
    · split at h
      next hi => exact hi ▸ length_nodesOf t slots ▸ parentOf?_lt h
      · simp at h

def childrenAt (nodes : List ModuleNode) (i : Nat) : List Nat :=
  (List.range nodes.length).filter fun j => parentAt nodes j = some i

theorem childrenAt_concat (t : Nat) (slots : Slots) (s : Slot) (i : Nat) :
    childrenAt (nodesOf t (slots ++ [s])) i = childrenAt (nodesOf t slots) i ++
      if parentOf? t (nodesOf t slots) s.key = some i then [slots.length] else [] := by
  unfold childrenAt
  rw [length_nodesOf, length_nodesOf, List.length_append, List.length_singleton, List.range_succ,
    List.filter_append]
  congr 1
  · refine List.filter_congr fun j hj => ?_
    rw [parentAt_concat, if_pos (List.mem_range.1 hj)]
  · by_cases h : parentOf? t (nodesOf t slots) s.key = some i <;> simp [parentAt_concat, h]

theorem getElem?_addNode_lt {t : Nat} {nodes : List ModuleNode} {s : Slot} {i : Nat}
    (hi : i < nodes.length) :
    (addNode t nodes s)[i]? = nodes[i]?.map fun n =>
      if parentOf? t nodes s.key = some i then addChild nodes.length n else n := by
  unfold addNode
  dsimp only
  split
  next h =>
    have h : parentOf? t nodes s.key = none := h
    simp [List.getElem?_append_left hi, h]
  next p h =>
    have h : parentOf? t nodes s.key = some p := h
    rw [List.getElem?_append_left (by simpa), List.getElem?_modify]
    simp [h, nodeOf]

theorem getElem?_addNode_eq (t : Nat) (nodes : List ModuleNode) (s : Slot) :
    (addNode t nodes s)[nodes.length]? = some (nodeOf t nodes s) := by
  unfold addNode
  dsimp only
  split <;> simp

theorem children_nodesOf {t : Nat} {slots : Slots} {i : Nat} {n : ModuleNode}
    (h : (nodesOf t slots)[i]? = some n) : n.children = childrenAt (nodesOf t slots) i := by
  induction slots using List.reverseRecOn generalizing n with
  | nil => simp [nodesOf] at h
  | append_singleton slots s ih =>
    have hlen := length_nodesOf t slots
    rw [childrenAt_concat]
    rw [nodesOf_concat] at h
    rcases lt_trichotomy i slots.length with hi | rfl | hi
    · rw [getElem?_addNode_lt (hlen ▸ hi)] at h
      obtain ⟨n₀, hn₀, rfl⟩ := Option.map_eq_some_iff.1 h
      rw [← ih hn₀]
      split <;> simp [addChild, hlen]
    · rw [← hlen, getElem?_addNode_eq] at h
      obtain rfl := Option.some.inj h
      have hnone : childrenAt (nodesOf t slots) slots.length = [] := by
        simp only [childrenAt, List.filter_eq_nil_iff, List.mem_range, decide_eq_true_eq, hlen]
        exact fun j hj hp => absurd (parentAt_lt hp) (by omega)
      have hself : parentOf? t (nodesOf t slots) s.key ≠ some slots.length := fun hp =>
        absurd (parentOf?_lt hp) (by omega)
      rw [hnone, if_neg hself]
      rfl
    · rw [List.getElem?_eq_none (by rw [length_addNode]; omega)] at h
      simp at h

theorem parentAt_nodesOf (t : Nat) (slots : Slots) (i : Nat) :
    parentAt (nodesOf t slots) i =
      slots[i]?.bind fun s => parentOf? t (nodesOf t (slots.take i)) s.key := by
  induction slots using List.reverseRecOn with
  | nil => simp [nodesOf, parentAt]
  | append_singleton slots s ih =>
    rw [parentAt_concat]
    split
    next hi =>
      rw [ih, List.getElem?_append_left hi, List.take_append_of_le_length (by omega)]
    · split
      next hi => simp [hi]
      next hlt hne =>
        rw [List.getElem?_eq_none]
        · rfl
        · simp only [List.length_append, List.length_singleton]
          omega

section Ascending
variable {α : Type} [LinearOrder α] {xs : List α}

theorem index_lt_of_lt (h : xs.Pairwise (· < ·)) {i j : Nat} {a b : α} (hi : xs[i]? = some a)
    (hj : xs[j]? = some b) (hab : a < b) : i < j := by
  obtain ⟨hi', rfl⟩ := List.getElem?_eq_some_iff.1 hi
  obtain ⟨hj', rfl⟩ := List.getElem?_eq_some_iff.1 hj
  rcases lt_trichotomy i j with hij | rfl | hij
  · exact hij
  · exact absurd hab (lt_irrefl _)
  · exact absurd (List.pairwise_iff_getElem.1 h j i hj' hi' hij) hab.asymm

theorem lt_of_index_lt (h : xs.Pairwise (· < ·)) {i j : Nat} {a b : α} (hi : xs[i]? = some a)
    (hj : xs[j]? = some b) (hij : i < j) : a < b := by
  obtain ⟨hi', rfl⟩ := List.getElem?_eq_some_iff.1 hi
  obtain ⟨hj', rfl⟩ := List.getElem?_eq_some_iff.1 hj
  exact List.pairwise_iff_getElem.1 h i j hi' hj' hij

theorem index_unique (h : xs.Pairwise (· < ·)) {i j : Nat} {a : α} (hi : xs[i]? = some a)
    (hj : xs[j]? = some a) : i = j := by
  rcases lt_trichotomy i j with hij | hij | hij
  · exact absurd (lt_of_index_lt h hi hj hij) (lt_irrefl a)
  · exact hij
  · exact absurd (lt_of_index_lt h hj hi hij) (lt_irrefl a)

theorem findIdx?_eq_some_of_ascending [DecidableEq α] (h : xs.Pairwise (· < ·)) {i : Nat}
    {a : α} :
    xs.findIdx? (fun x => x = a) = some i ↔ xs[i]? = some a := by
  rw [List.findIdx?_eq_some_iff_getElem]
  constructor
  · rintro ⟨hi, ha, -⟩
    rw [List.getElem?_eq_getElem hi, of_decide_eq_true ha]
  · intro hi
    obtain ⟨hi', ha⟩ := List.getElem?_eq_some_iff.1 hi
    refine ⟨hi', decide_eq_true ha, fun j hji hj => ?_⟩
    have hj' := List.getElem?_eq_some_iff.2 ⟨hji.trans hi', of_decide_eq_true hj⟩
    exact absurd (index_unique h hj' hi) hji.ne

end Ascending

theorem parentOf?_eq_some {t : Nat} {nodes : List ModuleNode} {k : ModuleKey} {p : Nat}
    (h : (nodes.map (·.key)).Pairwise (· < ·)) :
    parentOf? t nodes k = some p ↔ t < k.length ∧ (nodes.map (·.key))[p]? = some k.dropLast := by
  rw [← findIdx?_eq_some_of_ascending h, List.findIdx?_map]
  unfold parentOf?
  split
  next hle => simp [Nat.not_lt.2 hle]
  next hlt => simp [Nat.not_le.1 hlt, Function.comp_def]

/-- The parent of a node is the one whose key is one name shorter; only the top has none. -/
theorem parentAt_eq_some {top : ModuleKey} {slots : Slots}
    (h : TreeKeys top (slots.map (·.key))) {i p : Nat} :
    parentAt (nodesOf top.length slots) i = some p ↔
      ∃ k, (slots.map (·.key))[i]? = some k ∧ k ≠ top ∧
        (slots.map (·.key))[p]? = some k.dropLast := by
  have hkeys : ∀ i, (nodesOf top.length (slots.take i)).map (·.key) =
      (slots.map (·.key)).take i := fun i => by rw [map_key_nodesOf, List.map_take]
  have hasc : ∀ i, ((nodesOf top.length (slots.take i)).map (·.key)).Pairwise (· < ·) := fun i =>
    hkeys i ▸ h.ascending.sublist (List.take_sublist i _)
  rw [parentAt_nodesOf, Option.bind_eq_some_iff]
  constructor
  · rintro ⟨s, hs, hp⟩
    obtain ⟨hlen, hp⟩ := (parentOf?_eq_some (hasc i)).1 hp
    refine ⟨s.key, by simp [hs], fun he => absurd hlen (he ▸ lt_irrefl _), ?_⟩
    rw [hkeys, List.getElem?_take] at hp
    split at hp
    · exact hp
    · simp at hp
  · rintro ⟨k, hi, hne, hp⟩
    obtain ⟨s, hs, rfl⟩ := Option.map_eq_some_iff.1 (List.getElem?_map .. ▸ hi)
    have hlen := h.length_lt (List.mem_of_getElem? hi) hne
    have hlt : s.key.dropLast < s.key := ModuleKey.lt_of_isPrefix (List.dropLast_prefix _) (by
      intro he
      have := congrArg List.length he
      rw [List.length_dropLast] at this
      omega)
    refine ⟨s, hs, (parentOf?_eq_some (hasc i)).2 ⟨hlen, ?_⟩⟩
    rw [hkeys, List.getElem?_take_of_lt (index_lt_of_lt h.ascending hp hi hlt), hp]

/-- Nodes that stand in the order of their keys and know their parents and children. -/
structure Linked (top : ModuleKey) (nodes : List ModuleNode) : Prop where
  treeKeys : TreeKeys top (nodes.map (·.key))
  ids : nodes.map (·.id) = List.range nodes.length
  parentAt_eq_some : ∀ {i p : Nat}, parentAt nodes i = some p ↔
    ∃ k, (nodes.map (·.key))[i]? = some k ∧ k ≠ top ∧ (nodes.map (·.key))[p]? = some k.dropLast
  children_eq : ∀ {i : Nat} {n : ModuleNode}, nodes[i]? = some n → n.children = childrenAt nodes i

theorem nodesOf_linked {top : ModuleKey} {slots : Slots} (h : TreeKeys top (slots.map (·.key))) :
    Linked top (nodesOf top.length slots) where
  treeKeys := map_key_nodesOf top.length slots ▸ h
  ids := by rw [map_id_nodesOf, length_nodesOf]
  parentAt_eq_some := by
    intro i p
    rw [map_key_nodesOf]
    exact parentAt_eq_some h
  children_eq := children_nodesOf

def bare (n : ModuleNode) : ModuleNode := { n with stats := Stats.zero }

theorem map_eq_of_map_bare {β : Type} {f : ModuleNode → β} (hf : ∀ n, f (bare n) = f n)
    {nodes nodes' : List ModuleNode} (h : nodes.map bare = nodes'.map bare) :
    nodes.map f = nodes'.map f := by
  have hh := congrArg (List.map f) h
  simpa only [List.map_map, Function.comp_def, hf] using hh

theorem Linked.of_map_bare {top : ModuleKey} {nodes nodes' : List ModuleNode}
    (h : Linked top nodes) (hb : nodes.map bare = nodes'.map bare) : Linked top nodes' := by
  have hkeys : nodes.map (·.key) = nodes'.map (·.key) := map_eq_of_map_bare (fun _ => rfl) hb
  have hids : nodes.map (·.id) = nodes'.map (·.id) := map_eq_of_map_bare (fun _ => rfl) hb
  have hchildren : nodes.map (·.children) = nodes'.map (·.children) :=
    map_eq_of_map_bare (fun _ => rfl) hb
  have hlen : nodes.length = nodes'.length := by simpa using congrArg List.length hb
  have hparent : parentAt nodes = parentAt nodes' := funext fun i =>
    parentAt_congr (congrArg (·[i]?) (map_eq_of_map_bare (fun _ => rfl) hb))
  constructor
  · rw [← hkeys]
    exact h.treeKeys
  · rw [← hids, ← hlen]
    exact h.ids
  · intro i p
    rw [← hparent, ← hkeys]
    exact h.parentAt_eq_some
  · intro i n hn
    have hc := congrArg (·[i]?) hchildren
    simp only [List.getElem?_map, hn, Option.map_some] at hc
    obtain ⟨n', hn', he⟩ := Option.map_eq_some_iff.1 hc
    rw [← he, h.children_eq hn', childrenAt, childrenAt, hparent, hlen]

end CodeAtlas
