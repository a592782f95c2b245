import CodeAtlas.Module.Slot
import CodeAtlas.Proofs.Module.KeyOrder
import CodeAtlas.Proofs.Module.Roots

/-!
# What the slots gather

The slots that are filled one class after another are those of a description that looks at all
classes at once: there is one slot for every key that is met, in the order of the keys, and each
holds what was met under its key. The keys are that of the top and the beginnings, no shorter than
the top, of the keys of the classes.
-/
namespace CodeAtlas
namespace Slots

/-- The slot for a key once all the given names are met and all the given classes placed. -/
def slotAfter (met : List (List String)) (placed : List Placement) (key : ModuleKey) : Slot :=
  let spelled := met.filter fun names => ModuleKey.ofNames names = key
  let own := placed.filter fun p => p.key = key
  { key := key
    names := spelled.head?.getD []
    spellings := sortedSet compare (spelled.filterMap List.getLast?)
    dirs := sortedSet Path.cmp (own.map (·.dir))
    classes := own.map (·.info)
    isPackage := false }

def keysAfter (met : List (List String)) : List ModuleKey :=
  sortedSet ModuleKey.cmp (met.map ModuleKey.ofNames)

def after (met : List (List String)) (placed : List Placement) : Slots :=
  (keysAfter met).map (slotAfter met placed)

theorem mem_keysAfter {met : List (List String)} {k : ModuleKey} :
    k ∈ keysAfter met ↔ ∃ names ∈ met, ModuleKey.ofNames names = k := by
  simp [keysAfter, mem_sortedSet]

theorem keysAfter_concat (met : List (List String)) (names : List String) :
    keysAfter (met ++ [names]) =
      insertInOrder ModuleKey.cmp (ModuleKey.ofNames names) (keysAfter met) := by
  simp [keysAfter, sortedSet_concat]

/-- Inserting names changes the slot for their key only, and opens it if there is none. -/
theorem insert_map {keys : List ModuleKey} (hk : Ascending ModuleKey.cmp keys)
    {f g : ModuleKey → Slot} (hf : ∀ k, (f k).key = k) {names : List String} {key : ModuleKey}
    (hkey : ModuleKey.ofNames names = key)
    (hnew : key ∉ keys → g key = (Slot.ofNames names).spell names)
    (hold : key ∈ keys → g key = (f key).spell names)
    (hother : ∀ k ∈ keys, k ≠ key → g k = f k) :
    insert (keys.map f) names = (insertInOrder ModuleKey.cmp key keys).map g := by
  induction keys with
  | nil => simp [insert, insertInOrder, hnew]
  | cons k keys ih =>
    obtain ⟨hfirst, hrest⟩ := List.pairwise_cons.1 hk
    simp only [List.map_cons, insert, hf, hkey, insertInOrder]
    have hne : ∀ k' ∈ keys, k' ≠ k := fun k' hk' he => by
      have := hfirst k' hk'
      simp [he, ModuleKey.cmp_eq_lt] at this
    cases hc : ModuleKey.cmp key k with
    | lt =>
      -- The keys ascend, so the new key is none of those from `k` on.
      have hlt := ModuleKey.cmp_eq_lt.1 hc
      have habsent : key ∉ k :: keys := by
        intro hm
        rcases List.mem_cons.1 hm with rfl | hm
        · exact lt_irrefl _ hlt
        · exact (hlt.trans (ModuleKey.cmp_eq_lt.1 (hfirst key hm))).false
      have hsame : ∀ k' ∈ k :: keys, g k' = f k' := fun k' hk' =>
        hother k' hk' fun he => habsent (he ▸ hk')
      simp only [List.map_cons, hnew habsent, hsame k (by simp)]
      rw [List.map_congr_left fun k' hk' => hsame k' (List.mem_cons_of_mem _ hk')]
    | eq =>
      have he : key = k := ModuleKey.cmp_eq_eq.1 hc
      subst he
      simp only [List.map_cons, hold (by simp)]
      rw [List.map_congr_left fun k' hk' =>
        hother k' (List.mem_cons_of_mem _ hk') (hne k' hk')]
    | gt =>
      have hgt : k ≠ key := (ModuleKey.cmp_eq_gt.1 hc).ne
      have hmem : key ∈ k :: keys ↔ key ∈ keys := by simp [hgt.symm]
      rw [List.map_cons, hother k (by simp) hgt, ih hrest (fun h => hnew (hmem.not.2 h))
        (fun h => hold (hmem.2 h)) fun k' hk' => hother k' (List.mem_cons_of_mem _ hk')]

theorem change_map {f : ModuleKey → Slot} (hf : ∀ k, (f k).key = k) (keys : List ModuleKey)
    (key : ModuleKey) (h : Slot → Slot) :
    change (keys.map f) key h = keys.map fun k => if k = key then h (f k) else f k := by
  simp [change, hf, Function.comp_def]

/-- Meeting names once more; `placed` holds classes of modules that were met before. -/
theorem insert_after {met : List (List String)} {placed : List Placement}
    (h : ∀ p ∈ placed, p.key ∈ keysAfter met) (names : List String) :
    (after met placed).insert names = after (met ++ [names]) placed := by
  rw [after, after, keysAfter_concat]
  refine insert_map (ascending_sortedSet _) (fun _ => rfl) rfl ?_ ?_ ?_
  · intro habsent
    have hmet : met.filter (fun ns => ModuleKey.ofNames ns = ModuleKey.ofNames names) = [] := by
      simp only [List.filter_eq_nil_iff, decide_eq_true_eq]
      exact fun ns hns he => habsent (mem_keysAfter.2 ⟨ns, hns, he⟩)
    have hown : placed.filter (fun p => p.key = ModuleKey.ofNames names) = [] := by
      simp only [List.filter_eq_nil_iff, decide_eq_true_eq]
      exact fun p hp he => habsent (he ▸ h p hp)
    cases hl : names.getLast? <;>
      simp [slotAfter, List.filter_append, hmet, hown, Slot.spell, Slot.ofNames, hl, sortedSet,
        insertInOrder, -List.head?_filter]
  · intro hpresent
    obtain ⟨ns, hns, he⟩ := mem_keysAfter.1 hpresent
    have hspelled : ns ∈ met.filter fun ns => ModuleKey.ofNames ns = ModuleKey.ofNames names :=
      List.mem_filter.2 ⟨hns, decide_eq_true he⟩
    obtain ⟨first, hfirst⟩ := Option.isSome_iff_exists.1
      (List.isSome_head?.2 (List.ne_nil_of_mem hspelled))
    cases hl : names.getLast? <;>
      simp [slotAfter, List.filter_append, Slot.spell, hl, hfirst, sortedSet_concat,
        -List.head?_filter]
  · intro k _ hne
    simp [slotAfter, List.filter_append, hne.symm]

theorem change_after (met : List (List String)) (placed : List Placement) (p : Placement) :
    (after met placed).change p.key (Slot.addClass p) = after met (placed ++ [p]) := by
  rw [after, change_map (fun _ => rfl), after]
  refine List.map_congr_left fun k _ => ?_
  split
  next hk => simp [slotAfter, Slot.addClass, List.filter_append, hk, sortedSet_concat]
  next hk => simp [slotAfter, List.filter_append, Ne.symm hk]

theorem foldl_insert_after {met : List (List String)} {placed : List Placement}
    (h : ∀ p ∈ placed, p.key ∈ keysAfter met) (more : List (List String)) :
    more.foldl insert (after met placed) = after (met ++ more) placed := by
  induction more generalizing met with
  | nil => simp
  | cons names more ih =>
    have hmore : ∀ p ∈ placed, p.key ∈ keysAfter (met ++ [names]) := fun p hp => by
      obtain ⟨ns, hns, he⟩ := mem_keysAfter.1 (h p hp)
      exact mem_keysAfter.2 ⟨ns, by simp [hns], he⟩
    rw [List.foldl_cons, insert_after h, ih hmore, List.append_assoc, List.singleton_append]

def met (top : List String) (placed : List Placement) : List (List String) :=
  top :: placed.flatMap fun p => beginnings top.length p.names

theorem key_mem_keysAfter_met {top : List String} {placed : List Placement} {p : Placement}
    (h : p ∈ placed) : p.key ∈ keysAfter (met top placed) :=
  mem_keysAfter.2 ⟨p.names, List.mem_cons_of_mem _ (List.mem_flatMap.2
    ⟨p, h, by simp [beginnings]⟩), rfl⟩

theorem place_after (top : List String) (placed : List Placement) (p : Placement) :
    place top.length (after (met top placed) placed) p =
      after (met top (placed ++ [p])) (placed ++ [p]) := by
  have hmet : met top (placed ++ [p]) = met top placed ++ beginnings top.length p.names := by
    simp [met]
  rw [place, ensure, foldl_insert_after fun _ => key_mem_keysAfter_met, ← hmet, change_after]

/-- Filling the slots one class after another agrees with the description of all at once. -/
theorem gather_eq (top : List String) (placed : List Placement) :
    gather top placed = after (met top placed) placed := by
  induction placed using List.reverseRecOn with
  | nil =>
    have hstart : ensure top.length [] top = (beginnings top.length top).foldl insert
        (after [] []) := rfl
    rw [gather, List.foldl_nil, hstart, foldl_insert_after (by simp)]
    simp [met, beginnings]
  | append_singleton placed p ih =>
    rw [gather, List.foldl_append, ← gather, ih, List.foldl_cons, List.foldl_nil, place_after]

theorem markPackages_map {f : ModuleKey → Slot} (hf : ∀ k, (f k).key = k)
    (keys packages : List ModuleKey) :
    markPackages (keys.map f) packages =
      keys.map fun k => { f k with isPackage := packages.contains k || (f k).isPackage } := by
  induction packages generalizing f with
  | nil => simp [markPackages]
  | cons package packages ih =>
    rw [markPackages, List.foldl_cons, change_map hf, ← markPackages, ih]
    · refine List.map_congr_left fun k _ => ?_
      by_cases h : k = package <;> simp [h, Slot.markPackage]
    · intro k
      split <;> simp [Slot.markPackage, hf]

end Slots

open Slots

def moduleKeys (roots : List ModuleRoot) (classes : List ClassInfo) : List ModuleKey :=
  keysAfter (met (ModuleRoot.topNames roots) (classes.map (Placement.ofClass roots)))

/-- The slot of a module over the roots, described at once. -/
def slotOf (roots : List ModuleRoot) (files : List SourceFile) (classes : List ClassInfo)
    (key : ModuleKey) : Slot :=
  let placed := classes.map (Placement.ofClass roots)
  { slotAfter (met (ModuleRoot.topNames roots) placed) placed key with
    isPackage := (packageKeys roots files).contains key }

theorem slotsOf_eq (roots : List ModuleRoot) (files : List SourceFile)
    (classes : List ClassInfo) :
    slotsOf roots files classes = (moduleKeys roots classes).map (slotOf roots files classes) := by
  rw [slotsOf, gather_eq, after, markPackages_map fun _ => rfl]
  simp [moduleKeys, slotOf, slotAfter]

theorem slotsOf_keys (roots : List ModuleRoot) (files : List SourceFile)
    (classes : List ClassInfo) :
    (slotsOf roots files classes).map (·.key) = moduleKeys roots classes := by
  simp [slotsOf_eq, slotOf, slotAfter, Function.comp_def]

/-! ### The keys as a tree -/

theorem topNames_isPrefix (roots : List ModuleRoot) (c : ClassInfo) :
    ModuleRoot.topNames roots <+: (Placement.ofClass roots c).names := by
  unfold ModuleRoot.topNames
  split
  next r =>
    simp only [Placement.ofClass]
    cases h : ModuleRoot.moduleNames? [r] (c.file.parent?.getD ⟨""⟩) with
    | none => simp [ModuleRoot.topNames]
    | some names =>
      obtain ⟨b, hb, below, -, rfl⟩ := ModuleRoot.moduleNames?_label h
      simp [List.mem_singleton.1 hb]
  · exact List.nil_prefix

theorem mem_beginnings {least : Nat} {names xs : List String} (h : least ≤ names.length) :
    xs ∈ beginnings least names ↔ least ≤ xs.length ∧ xs <+: names := by
  simp only [beginnings, List.mem_append, List.mem_map, List.mem_range'_1, List.mem_singleton]
  constructor
  · rintro (⟨n, hn, rfl⟩ | rfl)
    · exact ⟨by simp only [List.length_take]; omega, List.take_prefix n names⟩
    · exact ⟨h, List.prefix_refl _⟩
  · rintro ⟨hlen, hp⟩
    have hle := hp.length_le
    by_cases heq : xs.length = names.length
    · exact Or.inr (hp.eq_of_length heq)
    · exact Or.inl ⟨xs.length, by omega, (List.prefix_iff_eq_take.1 hp).symm⟩

def classKey (roots : List ModuleRoot) (c : ClassInfo) : ModuleKey :=
  (Placement.ofClass roots c).key

def topKey (roots : List ModuleRoot) : ModuleKey := ModuleKey.ofNames (ModuleRoot.topNames roots)

theorem topKey_isPrefix (roots : List ModuleRoot) (c : ClassInfo) :
    topKey roots <+: classKey roots c :=
  (topNames_isPrefix roots c).map Text.lower

/-- There is a module for the top and for each beginning, no shorter, of the key of a class. -/
theorem mem_moduleKeys {roots : List ModuleRoot} {classes : List ClassInfo} {k : ModuleKey} :
    k ∈ moduleKeys roots classes ↔
      k = topKey roots ∨ ∃ c ∈ classes, (topKey roots).length ≤ k.length ∧ k <+: classKey roots c := by
  have hlen : ∀ c, (ModuleRoot.topNames roots).length ≤ (Placement.ofClass roots c).names.length :=
    fun c => (topNames_isPrefix roots c).length_le
  simp only [moduleKeys, mem_keysAfter, met, List.mem_cons, List.mem_flatMap, List.mem_map]
  constructor
  · rintro ⟨names, rfl | ⟨-, ⟨c, hc, rfl⟩, hn⟩, rfl⟩
    · exact Or.inl rfl
    · obtain ⟨hle, hp⟩ := (mem_beginnings (hlen c)).1 hn
      exact Or.inr ⟨c, hc, by simpa [topKey, ModuleKey.length_ofNames], hp.map _⟩
  · rintro (rfl | ⟨c, hc, hle, hp⟩)
    · exact ⟨_, Or.inl rfl, rfl⟩
    · refine ⟨(Placement.ofClass roots c).names.take k.length,
        Or.inr ⟨_, ⟨c, hc, rfl⟩, (mem_beginnings (hlen c)).2 ⟨?_, List.take_prefix _ _⟩⟩, ?_⟩
      · have hk := hp.length_le
        simp only [topKey, classKey, Placement.key, ModuleKey.length_ofNames] at hle hk
        simp only [List.length_take]
        omega
      · rw [ModuleKey.ofNames_take]
        exact (List.prefix_iff_eq_take.1 hp).symm

theorem classKey_mem {roots : List ModuleRoot} {classes : List ClassInfo} {c : ClassInfo}
    (hc : c ∈ classes) : classKey roots c ∈ moduleKeys roots classes :=
  mem_moduleKeys.2 (Or.inr ⟨c, hc, (topKey_isPrefix roots c).length_le, List.prefix_refl _⟩)

/-- Keys in order that all begin with the top's and of which each has the one above it. -/
structure TreeKeys (top : ModuleKey) (keys : List ModuleKey) : Prop where
  ascending : keys.Pairwise (· < ·)
  top_mem : top ∈ keys
  top_isPrefix : ∀ k ∈ keys, top <+: k
  dropLast_mem : ∀ k ∈ keys, k ≠ top → k.dropLast ∈ keys

theorem TreeKeys.length_lt {top : ModuleKey} {keys : List ModuleKey} (h : TreeKeys top keys)
    {k : ModuleKey} (hk : k ∈ keys) (hne : k ≠ top) : top.length < k.length := by
  have hp := h.top_isPrefix k hk
  exact lt_of_le_of_ne hp.length_le fun he => hne (hp.eq_of_length he).symm

theorem moduleKeys_treeKeys (roots : List ModuleRoot) (classes : List ClassInfo) :
    TreeKeys (topKey roots) (moduleKeys roots classes) where
  ascending := (ascending_sortedSet _).imp ModuleKey.cmp_eq_lt.1
  top_mem := mem_moduleKeys.2 (Or.inl rfl)
  top_isPrefix := by
    intro k hk
    rcases mem_moduleKeys.1 hk with rfl | ⟨c, -, hle, hp⟩
    · exact List.prefix_refl _
    · exact List.prefix_of_prefix_length_le (topKey_isPrefix roots c) hp hle
  dropLast_mem := by
    intro k hk hne
    rcases mem_moduleKeys.1 hk with rfl | ⟨c, hc, hle, hp⟩
    · exact absurd rfl hne
    · have htop := List.prefix_of_prefix_length_le (topKey_isPrefix roots c) hp hle
      have hlt : (topKey roots).length < k.length :=
        lt_of_le_of_ne hle fun he => hne (htop.eq_of_length he).symm
      refine mem_moduleKeys.2 (Or.inr ⟨c, hc, ?_, (List.dropLast_prefix k).trans hp⟩)
      simp only [List.length_dropLast]
      omega

end CodeAtlas
