import Mathlib.Data.Nat.Find
import Mathlib.Data.Set.Card
import Mathlib.Logic.Relation
import Mathlib.Order.Interval.Finset.Nat
import CodeAtlas.Proofs.Module.Built

/-!
# What lies below a node is a block

In the order of the keys the nodes at or below one stand together. So the walk over a stack of ids,
which puts the children of a node in the node's place, ends for each node of a built tree, and the
ids that it visits count up from that of the node.
-/
namespace CodeAtlas

def ModuleTree.Reaches (t : ModuleTree) : Nat → Nat → Prop :=
  Relation.ReflTransGen fun j p => (t.get j).parent = some p

structure WalksBlocks (t : ModuleTree) : Prop where
  /-- The walk from a node ends, and only so. -/
  walks_iff : ∀ {i : Nat} {visited : List Nat}, i < t.size →
    (t.Walks [i] visited ↔ visited = t.subtree i)
  /-- It visits as many ids from that of the node on as there are nodes that reach the node. -/
  subtree_eq_range' : ∀ {i : Nat}, i < t.size →
    t.subtree i = List.range' i {j | t.Reaches j i}.ncard
  mem_subtree_iff : ∀ {i j : Nat}, i < t.size → (j ∈ t.subtree i ↔ t.Reaches j i)
  /-- Each node comes before what lies below it, child after child. -/
  subtree_eq_cons : ∀ {i : Nat}, i < t.size →
    t.subtree i = i :: (t.get i).children.flatMap t.subtree

/-- Between a key and one that it begins there are only keys that it begins. -/
theorem ModuleKey.isPrefix_of_between {a x y : ModuleKey} (hax : a ≤ x) (hxy : x ≤ y)
    (h : a <+: y) : a <+: x := by
  by_contra hx
  have hlt : a < x := lt_of_le_of_ne hax fun he => hx (he ▸ List.prefix_refl a)
  exact absurd (lt_of_lt_of_isPrefix hlt hx h (List.prefix_refl x)) hxy.not_gt

section Linked
variable {top : ModuleKey} {nodes : List ModuleNode}

theorem Linked.keyAt_le (h : Linked top nodes) {i j : Nat} (hij : i ≤ j) (hj : j < nodes.length) :
    keyAt nodes i ≤ keyAt nodes j := by
  rcases hij.eq_or_lt with rfl | hlt
  · exact le_rfl
  · exact (h.keyAt_lt hlt hj).le

theorem Linked.mem_belowAt_of_between (h : Linked top nodes) {i m j : Nat} (him : i ≤ m)
    (hmj : m ≤ j) (hj : j ∈ belowAt nodes i) : m ∈ belowAt nodes i := by
  obtain ⟨hjn, hpre⟩ := mem_belowAt.1 hj
  have hm := hmj.trans_lt hjn
  exact mem_belowAt.2
    ⟨hm, ModuleKey.isPrefix_of_between (h.keyAt_le him hm) (h.keyAt_le hmj hjn) hpre⟩

/-- The nodes at or below one stand one after another. -/
theorem Linked.exists_belowAt_eq_range' (h : Linked top nodes) {i : Nat} (hi : i < nodes.length) :
    ∃ k, belowAt nodes i = List.range' i k := by
  -- The block reaches to the last node whose key begins with that of `i`.
  let last := Nat.findGreatest (· ∈ belowAt nodes i) nodes.length
  have hself := mem_belowAt_self hi
  have hlast : last ∈ belowAt nodes i :=
    Nat.findGreatest_spec (P := (· ∈ belowAt nodes i)) hi.le hself
  refine ⟨last + 1 - i, (belowAt_ascending i).eq_of_mem_iff List.pairwise_lt_range' fun j => ?_⟩
  have hilast := h.le_of_mem_belowAt hi hlast
  rw [List.mem_range'_1]
  constructor
  · intro hj
    have hij := h.le_of_mem_belowAt hi hj
    have hjlast : j ≤ last := Nat.le_findGreatest (mem_belowAt.1 hj).1.le hj
    omega
  · rintro ⟨hij, hjlast⟩
    exact h.mem_belowAt_of_between hij (by omega) hlast

end Linked

namespace ModuleTree
variable {top : ModuleKey} {t : ModuleTree} (h : Linked top t.nodes.toList)
include h

omit h in
theorem lt_of_parent {j p : Nat} (hp : (t.get j).parent = some p) : j < t.size := by
  by_contra hj
  have hout : ¬ j < t.nodes.size := hj
  have hnone : (t.get j).parent = none := by
    rw [get, Array.getD, dif_neg hout]
    rfl
  rw [hnone] at hp
  simp at hp

/-- The nodes whose parents lead to a node are those whose keys begin with its key. -/
theorem mem_belowAt_iff_reaches {i j : Nat} (hi : i < t.size) :
    j ∈ belowAt t.nodes.toList i ↔ t.Reaches j i := by
  constructor
  · intro hj
    induction j using Nat.strong_induction_on with
    | h j ih =>
      by_cases hne : j = i
      · rw [hne]
        exact .refl
      · have hjn := (mem_belowAt.1 hj).1
        obtain ⟨p, hp⟩ := h.exists_parentAt hjn (h.keyAt_ne_top_of_mem_belowAt hi hj hne)
        exact .head ((get_parent hjn).trans hp)
          (ih p (h.parentAt_lt hp) (h.mem_belowAt_parent hp hj hne hi))
  · intro hreach
    induction hreach using Relation.ReflTransGen.head_induction_on with
    | refl => exact mem_belowAt_self hi
    | head hp _ ih =>
      rw [get_parent (lt_of_parent hp)] at hp
      exact h.mem_belowAt_of_parentAt hp ih

theorem ncard_reaches {i k : Nat} (hi : i < t.size)
    (hk : belowAt t.nodes.toList i = List.range' i k) : {j | t.Reaches j i}.ncard = k := by
  have hset : {j | t.Reaches j i} = (Finset.Ico i (i + k) : Set Nat) := by
    ext j
    rw [Set.mem_ofPred_eq, ← mem_belowAt_iff_reaches h hi, hk, List.mem_range'_1, Finset.mem_coe,
      Finset.mem_Ico]
  rw [hset, Set.ncard_coe_finset, Nat.card_Ico, Nat.add_sub_cancel_left]

theorem walksBlocks : WalksBlocks t := by
  constructor
  case walks_iff =>
    intro i visited hi
    have hwalk : t.Walks [i] ([i].flatMap (belowAt t.nodes.toList)) :=
      walks_flatMap h (by simpa using hi)
    rw [List.flatMap_singleton, ← subtree_eq h hi] at hwalk
    exact ⟨fun hvisited => hvisited.unique hwalk, fun he => he ▸ hwalk⟩
  case subtree_eq_range' =>
    intro i hi
    obtain ⟨k, hk⟩ := h.exists_belowAt_eq_range' hi
    rw [ncard_reaches h hi hk, subtree_eq h hi, hk]
  case mem_subtree_iff =>
    intro i j hi
    rw [subtree_eq h hi]
    exact mem_belowAt_iff_reaches h hi
  case subtree_eq_cons =>
    intro i hi
    rw [subtree_eq h hi, h.belowAt_eq hi, get_children h hi]
    congr 1
    exact List.flatMap_congr fun c hc => (subtree_eq h (mem_childrenAt.1 hc).1).symm

end ModuleTree

/-- In every built tree the walk below a node visits a block of ids. -/
theorem aggregate_walksBlocks (rootPaths : List Path) (files : List SourceFile)
    (classes : List ClassInfo) : WalksBlocks (aggregate rootPaths files classes).tree :=
  ModuleTree.walksBlocks (aggregate_built rootPaths files classes).linked

end CodeAtlas
