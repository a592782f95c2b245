import CodeAtlas.Proofs.Module.Arena

/-!
# Passing counts up

One pass over the nodes from the last to the first leaves in each the counts of its own classes
and of those of its children. The pass may go on in place since each parent stands before its
children: once the pass has come to a node, nothing is added to it any more.
-/
namespace CodeAtlas

theorem map_passUp {β : Type} {f : ModuleNode → β} (hf : ∀ s n, f (addStats s n) = f n) (i : Nat)
    (nodes : List ModuleNode) : (passUp i nodes).map f = nodes.map f := by
  unfold passUp
  split
  · rfl
  · split
    · rfl
    · exact map_modify (hf _) _ _

theorem map_foldr_passUp {β : Type} {f : ModuleNode → β} (hf : ∀ s n, f (addStats s n) = f n)
    (is : List Nat) (nodes : List ModuleNode) : (is.foldr passUp nodes).map f = nodes.map f := by
  induction is with
  | nil => rfl
  | cons i is ih => rw [List.foldr_cons, map_passUp hf, ih]

theorem map_bare_rollUp (nodes : List ModuleNode) : (rollUp nodes).map bare = nodes.map bare :=
  map_foldr_passUp (fun _ _ => rfl) _ _

theorem Linked.rollUp {top : ModuleKey} {nodes : List ModuleNode} (h : Linked top nodes) :
    Linked top (rollUp nodes) :=
  h.of_map_bare (map_bare_rollUp nodes).symm

theorem length_rollUp (nodes : List ModuleNode) : (rollUp nodes).length = nodes.length := by
  simpa using congrArg List.length (map_bare_rollUp nodes)

def statsAt (nodes : List ModuleNode) (i : Nat) : Stats := (nodes[i]?.map (·.stats)).getD .zero

def ownAt (nodes : List ModuleNode) (i : Nat) : Stats := (nodes[i]?.map (·.own)).getD .zero

theorem parentAt_rollUp (nodes : List ModuleNode) : parentAt (rollUp nodes) = parentAt nodes :=
  funext fun i =>
    parentAt_congr (congrArg (·[i]?) (map_foldr_passUp (fun _ _ => rfl) _ nodes))

theorem childrenAt_rollUp (nodes : List ModuleNode) :
    childrenAt (rollUp nodes) = childrenAt nodes := by
  funext i
  rw [childrenAt, childrenAt, length_rollUp, parentAt_rollUp]

theorem ownAt_rollUp (nodes : List ModuleNode) : ownAt (rollUp nodes) = ownAt nodes := by
  funext i
  have hi := congrArg (·[i]?) (map_foldr_passUp (f := fun n => n.own) (fun _ _ => rfl)
    (List.range nodes.length) nodes)
  simp only [List.getElem?_map] at hi
  rw [ownAt, ownAt, rollUp, hi]

theorem parentAt_passUp (i j : Nat) (nodes : List ModuleNode) :
    parentAt (passUp i nodes) j = parentAt nodes j :=
  parentAt_congr (congrArg (·[j]?) (map_passUp (fun _ _ => rfl) i nodes))

theorem passUp_of_parentAt_none {nodes : List ModuleNode} {i : Nat} (h : parentAt nodes i = none) :
    passUp i nodes = nodes := by
  unfold passUp
  cases hi : nodes[i]? with
  | none => rfl
  | some n =>
    have hn : n.parent = none := by simpa [parentAt, hi] using h
    simp [hn]

theorem statsAt_passUp {nodes : List ModuleNode} {i p : Nat} (h : parentAt nodes i = some p)
    (hp : p < nodes.length) (j : Nat) :
    statsAt (passUp i nodes) j =
      if j = p then (statsAt nodes p).add (statsAt nodes i) else statsAt nodes j := by
  obtain ⟨n, hi, hn⟩ := Option.bind_eq_some_iff.1 h
  have hpass : passUp i nodes = nodes.modify p (addStats n.stats) := by simp [passUp, hi, hn]
  have hstats : statsAt nodes i = n.stats := by simp [statsAt, hi]
  rw [hpass, hstats]
  unfold statsAt
  rw [List.getElem?_modify]
  by_cases hj : j = p
  · subst hj
    simp [addStats, List.getElem?_eq_getElem hp]
  · simp [hj, Ne.symm hj]

def laterChildren (par : Nat → Option Nat) (size k i : Nat) : List Nat :=
  (List.range' k (size - k)).filter fun c => par c = some i

/-- How far a pass that has come down to `k` has got: the later children are accounted for. -/
def PassedTo (par : Nat → Option Nat) (own : Nat → Stats) (k : Nat) (nodes : List ModuleNode) :
    Prop :=
  ∀ j < nodes.length, statsAt nodes j =
    (own j).add (Stats.sum ((laterChildren par nodes.length k j).map (statsAt nodes)))

theorem length_passUp (i : Nat) (nodes : List ModuleNode) :
    (passUp i nodes).length = nodes.length := by
  simpa using congrArg List.length (map_passUp (f := fun _ => ()) (fun _ _ => rfl) i nodes)

theorem laterChildren_step {par : Nat → Option Nat} {size k : Nat} (hk : k < size) (i : Nat) :
    laterChildren par size k i =
      if par k = some i then k :: laterChildren par size (k + 1) i
      else laterChildren par size (k + 1) i := by
  unfold laterChildren
  rw [show size - k = (size - (k + 1)) + 1 by omega, List.range'_succ, List.filter_cons]
  simp

theorem PassedTo.step {nodes : List ModuleNode} {own : Nat → Stats} {k : Nat}
    (hk : k < nodes.length) (hlt : ∀ p, parentAt nodes k = some p → p < k)
    (h : PassedTo (parentAt nodes) own (k + 1) nodes) :
    PassedTo (parentAt nodes) own k (passUp k nodes) := by
  intro j hj
  rw [length_passUp] at hj ⊢
  rw [laterChildren_step hk]
  cases hp : parentAt nodes k with
  | none =>
    rw [passUp_of_parentAt_none hp, if_neg (by simp)]
    exact h j hj
  | some p =>
    have hpk := hlt p hp
    have hlater : ∀ i, ∀ c ∈ laterChildren (parentAt nodes) nodes.length (k + 1) i,
        statsAt (passUp k nodes) c = statsAt nodes c := by
      intro i c hc
      have hc := (List.mem_filter.1 hc).1
      rw [List.mem_range'_1] at hc
      rw [statsAt_passUp hp (by omega), if_neg (by omega)]
    rw [statsAt_passUp hp (by omega)]
    -- Only `p` gains, and exactly what the new later child `k` counts.
    by_cases hjp : j = p
    · subst hjp
      rw [if_pos rfl, if_pos rfl, List.map_cons, List.map_congr_left (hlater j), h j hj,
        Stats.sum_cons, statsAt_passUp hp (by omega), if_neg (by omega), Stats.add_assoc,
        Stats.add_comm (statsAt nodes k)]
    · rw [if_neg hjp, if_neg (by simpa using Ne.symm hjp), List.map_congr_left (hlater j), h j hj]

/-- From any place on, the pass accounts for all children. -/
theorem PassedTo.run {nodes : List ModuleNode} {own : Nat → Stats} {k : Nat}
    (hk : k ≤ nodes.length) (hlt : ∀ i p, parentAt nodes i = some p → p < i)
    (h : PassedTo (parentAt nodes) own k nodes) :
    PassedTo (parentAt nodes) own 0 ((List.range k).foldr passUp nodes) := by
  induction k generalizing nodes with
  | zero => exact h
  | succ k ih =>
    have hpar : parentAt (passUp k nodes) = parentAt nodes := funext (parentAt_passUp k · nodes)
    have hstep : PassedTo (parentAt (passUp k nodes)) own k (passUp k nodes) := by
      rw [hpar]
      exact h.step (by omega) (hlt k)
    have hrun := ih (by rw [length_passUp]; omega) (by rwa [hpar]) hstep
    rw [hpar] at hrun
    rw [List.range_succ, List.foldr_append, List.foldr_cons, List.foldr_nil]
    exact hrun

/-- After the pass each node counts its own classes and what its children count. -/
theorem statsAt_rollUp {nodes : List ModuleNode} (hlt : ∀ i p, parentAt nodes i = some p → p < i)
    (hown : nodes.map (·.stats) = nodes.map (·.own)) {j : Nat} (hj : j < nodes.length) :
    statsAt (rollUp nodes) j = (ownAt nodes j).add
      (Stats.sum ((childrenAt nodes j).map (statsAt (rollUp nodes)))) := by
  have hstart : PassedTo (parentAt nodes) (ownAt nodes) nodes.length nodes := by
    intro i _
    have hi := congrArg (·[i]?) hown
    simp only [List.getElem?_map] at hi
    simp [laterChildren, statsAt, ownAt, hi, Stats.sum, Stats.add_zero]
  have hrun : PassedTo (parentAt nodes) (ownAt nodes) 0 (rollUp nodes) :=
    PassedTo.run le_rfl hlt hstart
  rw [hrun j (by rwa [length_rollUp]), length_rollUp, laterChildren, childrenAt, List.range_eq_range', Nat.sub_zero]

end CodeAtlas
