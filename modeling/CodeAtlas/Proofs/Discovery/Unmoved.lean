import CodeAtlas.Proofs.Discovery.Exact
import CodeAtlas.Proofs.Files.Growth

/-!
# What is found again

A walk through a tree that has grown comes to the places that it came to before and to new ones. If
nothing new is taken, and links lead where they led, the same is found, in the same order.
-/
namespace CodeAtlas

theorem flatMap_filter {α β : Type} (p : α → Bool) (g : α → List β) (xs : List α) :
    (xs.filter p).flatMap g = xs.flatMap fun x => if p x then g x else [] := by
  induction xs with
  | nil => rfl
  | cons x xs ih => cases hx : p x <;> simp [hx, ih]

/-- Whether what is met counts: a fault does, and a file that is taken. -/
def FileFilter.heeds (f : FileFilter) (root : Location) : Encounter → Bool
  | .file names => (f.takes? root names).isSome
  | .fault _ => true

theorem FileFilter.taken_filter_heeds (f : FileFilter) (root : Location) (met : List Encounter) :
    f.taken root (met.filter (f.heeds root)) = f.taken root met := by
  rw [taken, taken, List.filterMap_filterMap, List.filterMap_filterMap, List.filterMap_filter]
  refine List.filterMap_congr fun x _ => ?_
  cases x with
  | fault g => rfl
  | file names =>
    cases htakes : f.takes? root names <;> simp [heeds, Encounter.file?, htakes]

theorem FileFilter.faults_filter_heeds (f : FileFilter) (root : Location) (met : List Encounter) :
    (met.filter (f.heeds root)).filterMap Encounter.fault? = met.filterMap Encounter.fault? := by
  rw [List.filterMap_filter]
  refine List.filterMap_congr fun x _ => ?_
  cases x with
  | fault g => rfl
  | file names => simp [Encounter.fault?]

/-- Whether what has been added to a tree, or has changed in it, is of no account to walks from a
place: no such file is taken, and every link that a walk comes to leads where it led. -/
structure FileFilter.Passes (f : FileFilter) (root : Location) (t u : FileTree) : Prop where
  file : ∀ names l, u.Meets f.walkRule root names l → u.find? l ≠ t.find? l →
    f.takes? root names = none
  link : f.followLinks = true → ∀ here above name, u.Opens f.walkRule root here above →
    (∃ q, u.find? (here.location ++ [name]) = some (.link q)) →
    u.resolveFrom FileTree.maxLinks here.location [.normal name] =
      t.resolveFrom FileTree.maxLinks here.location [.normal name]

namespace FileTree

section Grown
variable {t u : FileTree} {f : FileFilter} {root : Location} {here : OpenDirectory}
  {above : List OpenDirectory} (ht : t.WellFormed) (h : Grows t u) (hpass : f.Passes root t u)
include ht h hpass

omit ht in
/-- A new name leads to nothing that counts if a new directory does not. -/
theorem filter_metUnder_eq_nil {fuel : Nat} {name : String}
    (hopens : u.Opens f.walkRule root here above)
    (hnew : t.find? (here.location ++ [name]) = none)
    (hwalk : ∀ here above, u.Opens f.walkRule root here above → t.find? here.location = none →
      (u.walkFrom f.walkRule root fuel here above).filter (f.heeds root) = []) :
    (u.metUnder f.walkRule root fuel here above name).filter (f.heeds root) = [] := by
  by_cases hreal : u.IsReal (here.location ++ [name])
  · have hsight : u.sight f.walkRule root here above name = some (.ok (here.location ++ [name])) :=
      sight_of_isReal hreal
    rw [metUnder, hsight]
    dsimp only
    split
    · rfl
    next hkept =>
      rw [Bool.not_eq_true] at hkept
      split
      next hdir => exact hwalk _ _ (hopens.enter hsight hkept hdir) hnew
      next hfile =>
        rw [Bool.not_eq_true] at hfile
        obtain ⟨e, he, -⟩ := hreal
        have htakes := hpass.file _ _ (.file hopens hsight hkept hfile) (by simp [he, hnew])
        simp [FileFilter.heeds, htakes]
  · have hnone : u.find? (here.location ++ [name]) = none := by
      by_contra hsome
      obtain ⟨e, he⟩ := Option.ne_none_iff_exists'.1 hsome
      refine hreal ⟨e, he, ?_⟩
      rintro q rfl
      simp [h.link he] at hnew
    rw [metUnder, sight, hnone]
    rfl

/-- In a new directory there is nothing that counts. -/
theorem filter_walkFrom_eq_nil (hopens : u.Opens f.walkRule root here above)
    (hnew : t.find? here.location = none) (fuel : Nat) :
    (u.walkFrom f.walkRule root fuel here above).filter (f.heeds root) = [] := by
  induction fuel generalizing here above with
  | zero => rfl
  | succ fuel ih =>
    rw [walkFrom_succ, List.filter_flatMap, List.flatMap_eq_nil_iff]
    intro name _
    exact filter_metUnder_eq_nil h hpass hopens (ht.find?_append_eq_none hnew [name])
      fun _ _ hopens hnew => ih hopens hnew

/-- A name that was there leads where it led. -/
theorem sight_eq {name : String} (hopens : u.Opens f.walkRule root here above)
    (hdir : t.isDirectory here.location = true)
    (hold : (t.find? (here.location ++ [name])).isSome = true) :
    u.sight f.walkRule root here above name = t.sight f.walkRule root here above name ∧
      ∀ l, t.sight f.walkRule root here above name = some (.ok l) → t.IsReal l := by
  obtain ⟨e, he⟩ := Option.isSome_iff_exists.1 hold
  by_cases hlink : ∃ q, e = .link q
  · obtain ⟨q, rfl⟩ := hlink
    have hq := h.find?_link he
    cases hfollow : f.walkRule.followLinks with
    | false => simp [sight, he, hq, hfollow]
    | true =>
      have hresolve := hpass.link hfollow here above name hopens ⟨q, hq⟩
      unfold sight
      simp only [he, hq, hfollow, hresolve]
      cases hm : t.resolveFrom maxLinks here.location [.normal name] with
      | error e => simp
      | ok m =>
        obtain ⟨k, -, hleads⟩ := exists_leads_of_resolveFrom hm
        have hreal := ht.isReal_of_leads hleads (isReal_of_isDirectory hdir)
        simp only [h.isDirectory_eq hreal, true_and, Bool.not_true, Bool.false_eq_true, if_false]
        intro l hl
        split at hl
        · simp at hl
        · obtain rfl := Except.ok.inj (Option.some.inj hl)
          exact hreal
  · have hreal : t.IsReal (here.location ++ [name]) := ⟨e, he, fun q hq => hlink ⟨q, hq⟩⟩
    rw [sight_of_isReal hreal, sight_of_isReal (h.isReal hreal)]
    refine ⟨rfl, fun l hl => ?_⟩
    obtain rfl := Except.ok.inj (Option.some.inj hl)
    exact hreal

/-- In a directory that was there, what counts is what counted before. -/
theorem filter_walkFrom_eq (hopens : u.Opens f.walkRule root here above)
    (hdir : t.isDirectory here.location = true) (fuel : Nat) :
    (u.walkFrom f.walkRule root fuel here above).filter (f.heeds root) =
      (t.walkFrom f.walkRule root fuel here above).filter (f.heeds root) := by
  induction fuel generalizing here above with
  | zero => rfl
  | succ fuel ih =>
    have hnames := childNames_eq_filter (t := t) (u := u) (l := here.location) fun s hs => by
      obtain ⟨e, he⟩ := Option.isSome_iff_exists.1 hs
      obtain ⟨e', he', -⟩ := h.keeps he
      simp [he']
    -- The walk goes through the names of the larger tree, of which the smaller one has some.
    rw [walkFrom_succ, walkFrom_succ, hnames, List.filter_flatMap, List.filter_flatMap,
      flatMap_filter]
    refine List.flatMap_congr fun name _ => ?_
    cases hold : (t.find? (here.location ++ [name])).isSome with
    | false =>
      rw [if_neg Bool.false_ne_true]
      exact filter_metUnder_eq_nil h hpass hopens (by simpa using hold) fun _ _ hopens hnew =>
        filter_walkFrom_eq_nil ht h hpass hopens hnew fuel
    | true =>
      obtain ⟨hsight, hreal⟩ := sight_eq ht h hpass hopens hdir hold
      rw [if_pos rfl, metUnder, metUnder, hsight]
      split
      · rfl
      · rfl
      next l hl =>
        rw [h.isDirectory_eq (hreal l hl)]
        by_cases hkept : f.walkRule.leavesOut (here.names ++ [name]) = true
        · rw [if_pos hkept, if_pos hkept]
        · rw [if_neg hkept, if_neg hkept]
          split
          next hsub =>
            rw [Bool.not_eq_true] at hkept
            exact ih (hopens.enter (hsight.trans hl) hkept (h.isDirectory hsub)) hsub
          · rfl

theorem filter_walk_eq (hroot : t.IsReal root) :
    (u.walk f.walkRule root).filter (f.heeds root) =
      (t.walk f.walkRule root).filter (f.heeds root) := by
  cases hdir : t.isDirectory root with
  | true =>
    have hdir' := h.isDirectory hdir
    rw [walk_eq_walkFrom hdir (Nat.le_max_left _ u.depthBound),
      walk_eq_walkFrom hdir' (Nat.le_max_right t.depthBound _)]
    exact filter_walkFrom_eq ht h hpass (.start hdir') hdir _
  | false => rw [walk, walk, h.isDirectory_eq hroot, hdir]; rfl

theorem opens_of_grows (hopens : t.Opens f.walkRule root here above) :
    u.Opens f.walkRule root here above := by
  induction hopens with
  | start hroot => exact .start (h.isDirectory hroot)
  | enter hbefore hsight hkept hdir ih =>
    have hold := mem_childNames.1 (mem_childNames_of_sight hsight)
    exact .enter ih ((sight_eq ht h hpass ih hbefore.isDirectory hold).1.trans hsight) hkept
      (h.isDirectory hdir)

theorem meets_of_grows {names : List String} {l : Location} (hroot : t.IsReal root)
    (hmeets : t.Meets f.walkRule root names l) : u.Meets f.walkRule root names l := by
  cases hmeets with
  | root hfile => exact .root (by rwa [h.isDirectory_eq hroot])
  | file hopens hsight hkept hfile =>
    have hold := mem_childNames.1 (mem_childNames_of_sight hsight)
    have hopens' := opens_of_grows ht h hpass hopens
    obtain ⟨hsame, hreal⟩ := sight_eq ht h hpass hopens' hopens.isDirectory hold
    exact .file hopens' (hsame.trans hsight) hkept (by rwa [h.isDirectory_eq (hreal _ hsight)])

end Grown

/-- The names of a file that counts lead to the same bytes. -/
theorem Grows.read_eq {t u : FileTree} (h : Grows t u) {names : List String} {l : Location}
    (hnames : t.NamesLead names l) (hcurrent : t.isDirectory t.current = true)
    (hl : u.find? l = t.find? l) : u.read (Location.path names) = t.read (Location.path names) := by
  obtain ⟨hordinary, k, hleads⟩ := hnames
  have hcurrent' : u.isDirectory u.current = true := by
    rw [h.current]
    exact h.isDirectory hcurrent
  rw [read, read, resolve_path (hleads.path hordinary hcurrent),
    resolve_path ((h.leads hleads).path hordinary hcurrent')]
  by_cases hk : k ≤ maxLinks
  · rw [if_pos hk]
    simp only [bind, Except.bind, hl]
  · rw [if_neg hk]
    rfl

theorem steps_ne_nil (p : Path) : p.steps ≠ [] := by
  unfold Path.steps
  split <;> simp [Text.fields_ne_nil]

theorem WellFormed.isReal_of_resolve {t : FileTree} (ht : t.WellFormed) {p : Path} {l : Location}
    (hl : t.resolve p = .ok l) : t.isDirectory t.current = true ∧ t.IsReal l := by
  unfold resolve at hl
  split at hl
  · simp at hl
  · obtain ⟨k, -, hleads⟩ := exists_leads_of_resolveFrom hl
    have hcurrent : t.isDirectory t.current = true := by
      cases hsteps : p.steps with
      | nil => exact absurd hsteps (steps_ne_nil p)
      | cons c rest =>
        rw [hsteps] at hleads
        cases hleads with
        | step hdir _ _ => exact hdir
    exact ⟨hcurrent, ht.isReal_of_leads hleads (isReal_of_isDirectory hcurrent)⟩

end FileTree

section Grown
variable {t u : FileTree} {f : FileFilter} (ht : t.WellFormed) (h : FileTree.Grows t u)

include h in
theorem rootPlaces_of_grows {roots : List Path} {places : List Location}
    (hplaces : roots.mapM t.rootAt = .ok places) : roots.mapM u.rootAt = .ok places := by
  rw [mapM_eq_ok] at hplaces ⊢
  rw [← hplaces]
  refine List.map_congr_left fun r hr => ?_
  have hmem := List.mem_map_of_mem (f := t.rootAt) hr
  rw [hplaces] at hmem
  obtain ⟨l, -, hl⟩ := List.mem_map.1 hmem
  rw [← hl]
  exact FileTree.rootAt_eq_ok_iff.2 (h.resolve (FileTree.rootAt_eq_ok_iff.1 hl.symm))

include ht h in
theorem discover_of_grows {roots : List Path} {places : List Location}
    (hplaces : roots.mapM t.rootAt = .ok places) (hpass : ∀ root ∈ places, f.Passes root t u) :
    discover u f roots = discover t f roots := by
  have hreal : ∀ root ∈ places, t.IsReal root := by
    intro root hroot
    obtain ⟨r, -, hr⟩ := (mem_of_mapM_eq_ok hplaces).1 hroot
    exact (ht.isReal_of_resolve (FileTree.rootAt_eq_ok_iff.1 hr)).2
  have hmet : ∀ root ∈ places, (u.walk f.walkRule root).filter (f.heeds root) =
      (t.walk f.walkRule root).filter (f.heeds root) := fun root hroot =>
    FileTree.filter_walk_eq ht h (hpass root hroot) (hreal root hroot)
  have hfound : f.found u places = f.found t places := by
    refine List.flatMap_congr fun root hroot => ?_
    rw [← f.taken_filter_heeds, hmet root hroot, f.taken_filter_heeds]
  have hfaults : (places.flatMap fun root =>
      (u.walk f.walkRule root).filterMap Encounter.fault?) =
      places.flatMap fun root => (t.walk f.walkRule root).filterMap Encounter.fault? := by
    refine List.flatMap_congr fun root hroot => ?_
    rw [← f.faults_filter_heeds root, hmet root hroot, f.faults_filter_heeds]
  rw [discover_eq hplaces, discover_eq (rootPlaces_of_grows h hplaces), hfound, hfaults]

theorem read_of_mem_discover {roots : List Path} {places : List Location} {d : Discovery}
    (ht : t.WellFormed) (h : FileTree.Grows t u) (hplaces : roots.mapM t.rootAt = .ok places)
    (hpass : ∀ root ∈ places, f.Passes root t u) (hd : discover t f roots = .ok d)
    {a : FoundFile} (ha : a ∈ d.files) : u.read a.path = t.read a.path := by
  rw [discover_eq hplaces] at hd
  obtain rfl := Except.ok.inj hd
  obtain ⟨root, hroot, hmem⟩ := List.mem_flatMap.1 (mem_of_mem_sortFound ha)
  obtain ⟨names, language, hmet, htakes, rfl⟩ := FileFilter.mem_taken_iff.1 hmem
  obtain ⟨l, hmeets⟩ := FileTree.exists_meets_of_mem_walk hmet
  obtain ⟨r, -, hr⟩ := (mem_of_mapM_eq_ok hplaces).1 hroot
  obtain ⟨hcurrent, hreal⟩ := ht.isReal_of_resolve (FileTree.rootAt_eq_ok_iff.1 hr)
  have hsame : u.find? l = t.find? l := by
    by_contra hne
    have hmeets' := FileTree.meets_of_grows ht h (hpass root hroot) hreal hmeets
    simp [(hpass root hroot).file names l hmeets' hne] at htakes
  exact h.read_eq (ht.namesLead_of_meets hreal hmeets).1 hcurrent hsame

end Grown
end CodeAtlas
