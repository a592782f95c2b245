import Mathlib.Algebra.BigOperators.Group.Finset.Basic
import Mathlib.Algebra.Order.BigOperators.Group.Finset
import Mathlib.Combinatorics.Enumerative.DoubleCounting
import CodeAtlas.Proofs.Files.Walks

/-!
# How deep a walk goes

Between two links a walk goes down, and a link leads it to a directory that it is not in. So there is
a measure that gets smaller with every directory that it enters, and the depth at which a walk is cut
off is never reached: what a walk meets is all that there is to meet.
-/
namespace CodeAtlas.FileTree

def locations (t : FileTree) : Finset Location := insert [] (t.entries.map Prod.fst).toFinset

def below (t : FileTree) (l : Location) : Finset Location :=
  t.locations.filter fun m => l <+: m ∧ l ≠ m

/-- How much deeper a walk can go that is in a directory, with all those that are open. -/
def room (t : FileTree) (here : Location) (opened : Finset Location) : Nat :=
  (t.below here).card + 1 + ∑ l ∈ t.locations \ opened, ((t.below l).card + 1)

variable {t : FileTree} {rule : WalkRule} {root : Location} {here : OpenDirectory}
  {above : List OpenDirectory} {l : Location}

theorem mem_locations {e : FileEntry} (h : t.find? l = some e) : l ∈ t.locations := by
  by_cases hl : l = []
  · simp [locations, hl]
  · rw [locations, Finset.mem_insert, List.mem_toFinset]
    exact .inr (List.mem_map_of_mem (mem_entries_of_find? h hl))

theorem card_below_concat_lt {s : String} {e : FileEntry} (h : t.find? (l ++ [s]) = some e) :
    (t.below (l ++ [s])).card < (t.below l).card := by
  apply Finset.card_lt_card
  rw [Finset.ssubset_iff_of_subset]
  · refine ⟨l ++ [s], ?_, ?_⟩
    · simp [below, mem_locations h]
    · simp [below]
  · intro m hm
    simp only [below, Finset.mem_filter] at hm ⊢
    obtain ⟨hmem, hbegins, -⟩ := hm
    refine ⟨hmem, (List.prefix_append l [s]).trans hbegins, ?_⟩
    rintro rfl
    simpa using hbegins.length_le

theorem room_concat_lt {s : String} {e : FileEntry} {opened : Finset Location}
    (h : t.find? (l ++ [s]) = some e) :
    t.room (l ++ [s]) (insert (l ++ [s]) opened) < t.room l opened := by
  have hbelow := card_below_concat_lt h
  have hunopened : ∑ m ∈ t.locations \ insert (l ++ [s]) opened, ((t.below m).card + 1) ≤
      ∑ m ∈ t.locations \ opened, ((t.below m).card + 1) :=
    Finset.sum_le_sum_of_subset
      (Finset.sdiff_subset_sdiff (Finset.Subset.refl _) (Finset.subset_insert _ _))
  unfold room
  omega

theorem room_lt_of_not_mem {m : Location} {opened : Finset Location} (hm : m ∈ t.locations)
    (hnew : m ∉ opened) : t.room m (insert m opened) < t.room l opened := by
  have hsum := Finset.add_sum_erase (t.locations \ opened) (fun m => (t.below m).card + 1)
    (Finset.mem_sdiff.2 ⟨hm, hnew⟩)
  rw [← Finset.sdiff_insert] at hsum
  unfold room
  omega

def opened (here : OpenDirectory) (above : List OpenDirectory) : Finset Location :=
  ((here :: above).map OpenDirectory.location).toFinset

theorem opened_cons (d here : OpenDirectory) (above : List OpenDirectory) :
    opened d (here :: above) = insert d.location (opened here above) := by
  simp [opened]

theorem room_of_sight {name : String} (h : t.sight rule root here above name = some (.ok l))
    (hdir : t.isDirectory l = true) :
    t.room l (insert l (opened here above)) < t.room here.location (opened here above) := by
  rcases sight_eq_ok_iff.1 h with ⟨⟨e, he, -⟩, rfl⟩ | ⟨-, -, -, hnew⟩
  · exact room_concat_lt he
  · refine room_lt_of_not_mem (mem_locations (isDirectory_iff.1 hdir)) fun hmem => ?_
    rw [opened, List.mem_toFinset] at hmem
    obtain ⟨d, hd, rfl⟩ := List.mem_map.1 hmem
    exact hnew d hd hdir rfl

/-- A walk that has all the room it can use does not depend on how much it has. -/
theorem walkFrom_eq_of_room_le {fuel fuel' : Nat}
    (h : t.room here.location (opened here above) ≤ fuel)
    (h' : t.room here.location (opened here above) ≤ fuel') :
    t.walkFrom rule root fuel here above = t.walkFrom rule root fuel' here above := by
  induction fuel generalizing fuel' here above with
  | zero => exact absurd h (by simp [room])
  | succ fuel ih =>
    cases fuel' with
    | zero => exact absurd h' (by simp [room])
    | succ fuel' =>
      rw [walkFrom_succ, walkFrom_succ]
      congr 1
      funext name
      unfold metUnder
      split
      · rfl
      · rfl
      next l hsight =>
        by_cases hdir : t.isDirectory l = true
        · -- There is less room in the directory that is gone to, so one fuel less is enough there.
          have hroom := room_of_sight hsight hdir
          rw [← opened_cons ⟨here.names ++ [name], l⟩] at hroom
          have hless : t.room l (opened ⟨here.names ++ [name], l⟩ (here :: above)) ≤ fuel :=
            Nat.le_of_lt_succ (hroom.trans_le h)
          have hless' : t.room l (opened ⟨here.names ++ [name], l⟩ (here :: above)) ≤ fuel' :=
            Nat.le_of_lt_succ (hroom.trans_le h')
          rw [hdir, if_pos rfl, if_pos rfl]
          split
          · rfl
          · exact ih hless hless'
        · rw [if_neg hdir, if_neg hdir]

section DepthBound

theorem sum_toFinset_le {α : Type} [DecidableEq α] (f : α → Nat) (xs : List α) :
    ∑ x ∈ xs.toFinset, f x ≤ (xs.map f).sum := by
  induction xs with
  | nil => simp
  | cons x xs ih =>
    rw [List.toFinset_cons, List.map_cons, List.sum_cons]
    by_cases hx : x ∈ xs.toFinset
    · rw [Finset.insert_eq_of_mem hx]
      omega
    · rw [Finset.sum_insert hx]
      omega

theorem depthBound_eq (t : FileTree) :
    t.depthBound = 1 + (t.entries.map fun e => e.1.length + 1).sum := by
  suffices h : ∀ (es : List (Location × FileEntry)) (n : Nat),
      es.foldl (fun n e => n + e.1.length + 1) n = n + (es.map fun e => e.1.length + 1).sum from
    h t.entries 1
  intro es
  induction es with
  | nil => simp
  | cons e es ih =>
    intro n
    rw [List.foldl_cons, ih, List.map_cons, List.sum_cons]
    omega

theorem card_above_le (t : FileTree) (m : Location) :
    (t.locations.filter fun l => l <+: m ∧ l ≠ m).card ≤ m.length := by
  rw [← Finset.card_range m.length]
  apply Finset.card_le_card_of_injOn List.length
  · intro l hl
    obtain ⟨-, hbegins, hne⟩ := by simpa using hl
    rw [Finset.mem_coe, Finset.mem_range]
    exact lt_of_le_of_ne hbegins.length_le fun he => hne (hbegins.eq_of_length he)
  · intro l hl l' hl' he
    obtain ⟨-, hbegins, -⟩ := by simpa using hl
    obtain ⟨-, hbegins', -⟩ := by simpa using hl'
    exact (List.prefix_of_prefix_length_le hbegins hbegins' he.le).eq_of_length he

theorem sum_card_below_le (t : FileTree) :
    ∑ l ∈ t.locations, ((t.below l).card + 1) ≤ t.depthBound := by
  have hcount : ∑ l ∈ t.locations, (t.below l).card =
      ∑ m ∈ t.locations, (t.locations.filter fun l => l <+: m ∧ l ≠ m).card :=
    Finset.sum_card_bipartiteAbove_eq_sum_card_bipartiteBelow fun l m : Location => l <+: m ∧ l ≠ m
  have hinsert : ∑ m ∈ t.locations, (m.length + 1) ≤
      1 + ∑ m ∈ (t.entries.map Prod.fst).toFinset, (m.length + 1) := by
    by_cases hnil : [] ∈ (t.entries.map Prod.fst).toFinset
    · rw [locations, Finset.insert_eq_of_mem hnil]
      omega
    · rw [locations, Finset.sum_insert hnil, List.length_nil]
  calc ∑ l ∈ t.locations, ((t.below l).card + 1)
    _ ≤ ∑ m ∈ t.locations, (m.length + 1) := by
      rw [Finset.sum_add_distrib, Finset.sum_add_distrib, hcount]
      exact Nat.add_le_add_right (Finset.sum_le_sum fun m _ => t.card_above_le m) _
    _ ≤ 1 + ∑ m ∈ (t.entries.map Prod.fst).toFinset, (m.length + 1) := hinsert
    _ ≤ 1 + ((t.entries.map Prod.fst).map fun m => m.length + 1).sum :=
      Nat.add_le_add_left (sum_toFinset_le _ _) 1
    _ = t.depthBound := by
      rw [depthBound_eq, List.map_map]
      rfl

theorem room_le_depthBound (hroot : t.isDirectory root = true) :
    t.room root {root} ≤ t.depthBound := by
  have hsum := Finset.add_sum_erase t.locations (fun m => (t.below m).card + 1)
    (mem_locations (isDirectory_iff.1 hroot))
  have hbound := t.sum_card_below_le
  unfold room
  rw [Finset.sdiff_singleton_eq_erase]
  omega

end DepthBound

theorem walk_eq_walkFrom (hroot : t.isDirectory root = true) {fuel : Nat}
    (h : t.depthBound ≤ fuel) : t.walk rule root = t.walkFrom rule root fuel ⟨[], root⟩ [] := by
  have hroom := room_le_depthBound hroot
  rw [walk, if_pos hroot]
  exact walkFrom_eq_of_room_le hroom (hroom.trans h)

theorem mem_walkFrom_succ {x : Encounter} {name : String} {fuel : Nat}
    (hsight : t.sight rule root here above name = some (.ok l))
    (hmet : x ∈ t.metUnder rule root fuel here above name) :
    x ∈ t.walkFrom rule root (fuel + 1) here above := by
  rw [walkFrom_succ]
  exact List.mem_flatMap.2 ⟨name, mem_childNames_of_sight hsight, hmet⟩

/-- Whatever is met in the end from a directory that the walk comes to is met by the walk. -/
theorem Opens.mem_walk {x : Encounter} {n : Nat} (h : t.Opens rule root here above)
    (hmet : ∀ fuel ≥ n, x ∈ t.walkFrom rule root fuel here above) : x ∈ t.walk rule root := by
  induction h generalizing n with
  | start hroot =>
    rw [walk_eq_walkFrom hroot (Nat.le_max_left _ n)]
    exact hmet _ (Nat.le_max_right _ n)
  | @enter here above name l _ hsight hkept hdir ih =>
    refine ih (n := n + 1) fun fuel hfuel => ?_
    obtain ⟨fuel, rfl⟩ := Nat.exists_eq_add_of_lt (Nat.lt_of_succ_le hfuel)
    refine mem_walkFrom_succ hsight ?_
    rw [metUnder, hsight]
    simpa [hkept, hdir] using hmet (n + fuel) (Nat.le_add_right n fuel)

/-- A walk meets the files that it comes to, and no others. -/
theorem mem_walk_iff {names : List String} :
    .file names ∈ t.walk rule root ↔ ∃ l, t.Meets rule root names l := by
  refine ⟨exists_meets_of_mem_walk, ?_⟩
  rintro ⟨l, hmeets⟩
  cases hmeets with
  | root hroot => simp [walk, hroot]
  | file hopens hsight hkept hfile =>
    refine hopens.mem_walk (n := 1) fun fuel hfuel => ?_
    obtain ⟨fuel, rfl⟩ := Nat.exists_eq_add_of_le' hfuel
    refine mem_walkFrom_succ hsight ?_
    rw [metUnder, hsight]
    simp [hkept, hfile]

end CodeAtlas.FileTree
