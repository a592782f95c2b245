import CodeAtlas.Files.Walk
import CodeAtlas.Proofs.Files.Following

/-!
# What a walk meets

A walk is in a chain of open directories. What it does with a name in the innermost of them is told
by what the name leads to from there, and what it meets in the end by the chains that come up.
-/
namespace CodeAtlas.FileTree

/-- What a walk sees under a name in the directory that it is in: nothing to go to, a fault, or the
location that the name leads to. -/
def sight (t : FileTree) (rule : WalkRule) (root : Location) (here : OpenDirectory)
    (above : List OpenDirectory) (name : String) : Option (Except WalkFault Location) :=
  match t.find? (here.location ++ [name]) with
  | none => none
  | some (.link _) =>
    if !rule.followLinks then none
    else
      let path := Location.path (root ++ (here.names ++ [name]))
      match t.resolveFrom maxLinks here.location [.normal name] with
      | .error e => some (.error (.unreadable path e))
      | .ok l =>
        match (here :: above).find? fun d => t.isDirectory l && d.location = l with
        | some d => some (.error (.cycle path (Location.path (root ++ d.names))))
        | none => some (.ok l)
  | some _ => some (.ok (here.location ++ [name]))

/-- What a walk meets under a name, at most `fuel` directories deep. -/
def metUnder (t : FileTree) (rule : WalkRule) (root : Location) (fuel : Nat) (here : OpenDirectory)
    (above : List OpenDirectory) (name : String) : List Encounter :=
  match t.sight rule root here above name with
  | none => []
  | some (.error f) => [.fault f]
  | some (.ok l) =>
    if rule.leavesOut (here.names ++ [name]) then []
    else if t.isDirectory l then
      t.walkFrom rule root fuel ⟨here.names ++ [name], l⟩ (here :: above)
    else [.file (here.names ++ [name])]

variable {t : FileTree} {rule : WalkRule} {root : Location} {here : OpenDirectory}
  {above : List OpenDirectory} {name : String} {l : Location}

theorem walkFrom_succ (fuel : Nat) : t.walkFrom rule root (fuel + 1) here above =
    (t.childNames here.location).flatMap (t.metUnder rule root fuel here above) := by
  rw [walkFrom]
  congr 1
  funext name
  unfold metUnder sight
  cases t.find? (here.location ++ [name]) with
  | none => rfl
  | some e =>
    cases e with
    | directory => rfl
    | file c => rfl
    | link q =>
      cases rule.followLinks with
      | false => rfl
      | true =>
        cases hresolve : t.resolveFrom maxLinks here.location [.normal name] with
        | error e => simp
        | ok l =>
          cases hcycle : (here :: above).find? fun d => t.isDirectory l && d.location = l with
          | none => simp [hcycle]
          | some d => simp [hcycle]

theorem mem_childNames_of_sight {x : Except WalkFault Location}
    (h : t.sight rule root here above name = some x) : name ∈ t.childNames here.location := by
  rw [mem_childNames, Option.isSome_iff_ne_none]
  intro hnone
  simp [sight, hnone] at h

theorem sight_of_isReal (h : t.IsReal (here.location ++ [name])) :
    t.sight rule root here above name = some (.ok (here.location ++ [name])) := by
  obtain ⟨e, he, hlink⟩ := h
  unfold sight
  rw [he]
  cases e with
  | link q => exact absurd rfl (hlink q)
  | _ => rfl

/-- A link that is followed leads to what no open directory is. -/
theorem sight_of_link_eq_ok_iff {q : Path} (hfollow : rule.followLinks = true)
    (he : t.find? (here.location ++ [name]) = some (.link q)) :
    t.sight rule root here above name = some (.ok l) ↔
      t.resolveFrom maxLinks here.location [.normal name] = .ok l ∧
        ∀ d ∈ here :: above, t.isDirectory l = true → d.location ≠ l := by
  unfold sight
  simp only [he, hfollow, Bool.not_true, Bool.false_eq_true, if_false]
  cases t.resolveFrom maxLinks here.location [.normal name] with
  | error e => simp
  | ok m =>
    dsimp only
    cases hcycle : (here :: above).find? fun d => t.isDirectory m && d.location = m with
    | some d =>
      have hd : t.isDirectory m = true ∧ d.location = m := by simpa using List.find?_some hcycle
      suffices h : ¬ (Except.ok (ε := FileFault) m = .ok l ∧
          ∀ d ∈ here :: above, t.isDirectory l = true → d.location ≠ l) by simpa using h
      rintro ⟨hm, hnew⟩
      obtain rfl := Except.ok.inj hm
      exact hnew d (List.mem_of_find?_eq_some hcycle) hd.1 hd.2
    | none =>
      have hnew : ∀ d ∈ here :: above, t.isDirectory m = true → d.location ≠ m := by
        simpa using List.find?_eq_none.1 hcycle
      constructor
      · intro h
        obtain rfl := Except.ok.inj (Option.some.inj h)
        exact ⟨rfl, hnew⟩
      · rintro ⟨hm, -⟩
        exact congrArg some (congrArg Except.ok (Except.ok.inj hm))

/-- What a name leads to is an entry of the directory, or what a link there leads to. -/
theorem sight_eq_ok_iff : t.sight rule root here above name = some (.ok l) ↔
    (t.IsReal (here.location ++ [name]) ∧ l = here.location ++ [name]) ∨
      rule.followLinks = true ∧ (∃ q, t.find? (here.location ++ [name]) = some (.link q)) ∧
        t.resolveFrom maxLinks here.location [.normal name] = .ok l ∧
        ∀ d ∈ here :: above, t.isDirectory l = true → d.location ≠ l := by
  by_cases hreal : t.IsReal (here.location ++ [name])
  · have hlink : ¬ ∃ q, t.find? (here.location ++ [name]) = some (.link q) := by
      obtain ⟨e, he, hne⟩ := hreal
      rintro ⟨q, hq⟩
      exact hne q (Option.some.inj (he.symm.trans hq))
    simp [sight_of_isReal hreal, hreal, hlink, eq_comm (a := l)]
  · cases he : t.find? (here.location ++ [name]) with
    | none => simp [sight, he, hreal]
    | some e =>
      cases e with
      | link q =>
        cases hfollow : rule.followLinks with
        | false => simp [sight, he, hreal, hfollow]
        | true =>
          rw [sight_of_link_eq_ok_iff hfollow he]
          simp [hreal]
      | _ => exact absurd ⟨_, he, by simp⟩ hreal

/-- The directories that a walk is in, the innermost apart. -/
inductive Opens (t : FileTree) (rule : WalkRule) (root : Location) :
    OpenDirectory → List OpenDirectory → Prop
  | start : t.isDirectory root = true → Opens t rule root ⟨[], root⟩ []
  | enter {here : OpenDirectory} {above : List OpenDirectory} {name : String} {l : Location} :
      Opens t rule root here above → t.sight rule root here above name = some (.ok l) →
      rule.leavesOut (here.names ++ [name]) = false → t.isDirectory l = true →
      Opens t rule root ⟨here.names ++ [name], l⟩ (here :: above)

/-- A walk comes to a file under some names. -/
inductive Meets (t : FileTree) (rule : WalkRule) (root : Location) : List String → Location → Prop
  | root : t.isDirectory root = false → Meets t rule root [] root
  | file {here : OpenDirectory} {above : List OpenDirectory} {name : String} {l : Location} :
      Opens t rule root here above → t.sight rule root here above name = some (.ok l) →
      rule.leavesOut (here.names ++ [name]) = false → t.isDirectory l = false →
      Meets t rule root (here.names ++ [name]) l

theorem Opens.isDirectory (h : t.Opens rule root here above) :
    t.isDirectory here.location = true := by
  cases h with
  | start h => exact h
  | enter _ _ _ h => exact h

theorem Opens.exists_meets {names : List String} {fuel : Nat} (h : t.Opens rule root here above)
    (hmem : .file names ∈ t.walkFrom rule root fuel here above) :
    ∃ l, t.Meets rule root names l := by
  induction fuel generalizing here above with
  | zero => simp [walkFrom] at hmem
  | succ fuel ih =>
    rw [walkFrom_succ] at hmem
    obtain ⟨name, -, hmem⟩ := List.mem_flatMap.1 hmem
    unfold metUnder at hmem
    split at hmem
    · simp at hmem
    · simp at hmem
    next l hsight =>
      split at hmem
      · simp at hmem
      next hkept =>
        rw [Bool.not_eq_true] at hkept
        split at hmem
        next hdir => exact ih (.enter h hsight hkept hdir) hmem
        next hfile =>
          obtain rfl : names = here.names ++ [name] := by simpa using hmem
          exact ⟨l, .file h hsight hkept (by simpa using hfile)⟩

theorem exists_meets_of_mem_walk {names : List String} (h : .file names ∈ t.walk rule root) :
    ∃ l, t.Meets rule root names l := by
  unfold walk at h
  split at h
  next hdir => exact (Opens.start hdir).exists_meets h
  next hfile =>
    obtain rfl : names = [] := by simpa using h
    exact ⟨root, .root (by simpa using hfile)⟩

def NamesLead (t : FileTree) (names : List String) (l : Location) : Prop :=
  (∀ s ∈ names, IsOrdinary s) ∧ ∃ k, t.Leads [] (names.map .normal) k l

section WellFormed
variable (ht : t.WellFormed)
include ht

theorem WellFormed.namesLead_self (hl : t.IsReal l) : t.NamesLead l l := by
  obtain ⟨e, he, -⟩ := id hl
  exact ⟨ht.isOrdinary_of_find? he, 0, ht.leads_names [] hl⟩

theorem WellFormed.namesLead_of_sight (hhere : t.isDirectory here.location = true)
    (hnames : t.NamesLead (root ++ here.names) here.location)
    (h : t.sight rule root here above name = some (.ok l)) :
    t.NamesLead (root ++ (here.names ++ [name])) l ∧ t.IsReal l := by
  obtain ⟨hordinary, k, hleads⟩ := hnames
  obtain ⟨hname, hreal, k', hlast⟩ : IsOrdinary name ∧ t.IsReal l ∧
      ∃ k', t.Leads here.location [.normal name] k' l := by
    rcases sight_eq_ok_iff.1 h with ⟨⟨e, he, hlink⟩, rfl⟩ | ⟨-, ⟨q, hq⟩, hresolve, -⟩
    · exact ⟨ht.isOrdinary_of_find? he name (by simp), ⟨e, he, hlink⟩, 0,
        .cons hhere (.enter he hlink) (.stay _)⟩
    · obtain ⟨k', -, hlast⟩ := exists_leads_of_resolveFrom hresolve
      exact ⟨ht.isOrdinary_of_find? hq name (by simp),
        ht.isReal_of_leads hlast (isReal_of_isDirectory hhere), k', hlast⟩
  rw [← List.append_assoc]
  refine ⟨⟨fun s hs => ?_, k + k', ?_⟩, hreal⟩
  · rcases List.mem_append.1 hs with hs | hs
    · exact hordinary s hs
    · rwa [List.mem_singleton.1 hs]
  · rw [List.map_append]
    exact hleads.append hlast

theorem WellFormed.namesLead_of_opens (h : t.Opens rule root here above) :
    t.NamesLead (root ++ here.names) here.location := by
  induction h with
  | start hroot =>
    rw [List.append_nil]
    exact ht.namesLead_self (isReal_of_isDirectory hroot)
  | enter hopens hsight _ _ ih => exact (ht.namesLead_of_sight hopens.isDirectory ih hsight).1

theorem WellFormed.namesLead_of_meets {names : List String} (hroot : t.IsReal root)
    (h : t.Meets rule root names l) : t.NamesLead (root ++ names) l ∧ t.IsReal l := by
  cases h with
  | root =>
    rw [List.append_nil]
    exact ⟨ht.namesLead_self hroot, hroot⟩
  | file hopens hsight _ _ =>
    exact ht.namesLead_of_sight hopens.isDirectory (ht.namesLead_of_opens hopens) hsight

end WellFormed

end CodeAtlas.FileTree
