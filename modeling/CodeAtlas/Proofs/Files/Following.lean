import CodeAtlas.Files.Resolve
import CodeAtlas.Proofs.Files.Trees

/-!
# Where steps lead

Following a path depends on how many links may still be followed. Here this number is taken out of
the way: steps lead to a place through some number of links, and following them ends there if as
many links are allowed and fails for too many links if not.
-/
namespace CodeAtlas.FileTree

/-- A step from a location comes to the next one, perhaps with more steps to take from there, through
no link or through one. -/
inductive Takes (t : FileTree) : Location → Component → Location → List Component → Nat → Prop
  | root (l : Location) : Takes t l .root [] [] 0
  | current (l : Location) : Takes t l .current l [] 0
  | parent (l : Location) : Takes t l .parent l.dropLast [] 0
  | enter {l : Location} {name : String} {e : FileEntry} : t.find? (l ++ [name]) = some e →
      (∀ q, e ≠ .link q) → Takes t l (.normal name) (l ++ [name]) [] 0
  | jump {l : Location} {name : String} {q : Path} : t.find? (l ++ [name]) = some (.link q) →
      Takes t l (.normal name) l q.steps 1

/-- Steps from a location lead to another one through a number of links. -/
inductive Leads (t : FileTree) : Location → List Component → Nat → Location → Prop
  | stay (l : Location) : Leads t l [] 0 l
  | step {l : Location} {c : Component} {next : Location} {more rest : List Component}
      {used links : Nat} {m : Location} : t.isDirectory l = true → Takes t l c next more used →
      Leads t next (more ++ rest) links m → Leads t l (c :: rest) (used + links) m

variable {t : FileTree} {l m : Location} {steps : List Component}

theorem Leads.cons {c : Component} {next : Location} {rest : List Component} {k : Nat}
    (hl : t.isDirectory l = true) (h : t.Takes l c next [] 0) (hrest : t.Leads next rest k m) :
    t.Leads l (c :: rest) k m := by
  have hstep : t.Leads l (c :: rest) (0 + k) m := .step hl h hrest
  rwa [Nat.zero_add] at hstep

theorem resolveFrom_nil (n : Nat) : t.resolveFrom n l [] = .ok l := by
  cases n <;> rfl

theorem resolveFrom_of_not_directory (hl : t.isDirectory l = false) (n : Nat) (c : Component)
    (rest : List Component) : t.resolveFrom n l (c :: rest) = .error .notDirectory := by
  cases n <;> simp [resolveFrom, follow, hl]

/-- A step costs as many of the links that may be followed as it goes through. -/
theorem Takes.resolveFrom_eq {c : Component} {next : Location} {more : List Component} {used : Nat}
    (h : t.Takes l c next more used) (hl : t.isDirectory l = true) (n : Nat)
    (rest : List Component) : t.resolveFrom n l (c :: rest) =
      if used ≤ n then t.resolveFrom (n - used) next (more ++ rest) else .error .tooManyLinks := by
  cases h with
  | root => cases n <;> simp [resolveFrom, follow, hl]
  | current => cases n <;> simp [resolveFrom, follow, hl]
  | parent => cases n <;> simp [resolveFrom, follow, hl]
  | enter he hlink =>
    rename_i name e
    obtain directory | c | q := e
    · cases n <;> simp [resolveFrom, follow, hl, he]
    · cases n <;> simp [resolveFrom, follow, hl, he]
    · exact absurd rfl (hlink q)
  | jump he => cases n <;> simp [resolveFrom, follow, hl, he]

theorem Takes.used_cases {c : Component} {next : Location} {more : List Component} {used : Nat}
    (h : t.Takes l c next more used) : used = 0 ∧ more = [] ∨ used = 1 := by
  cases h <;> simp

/-- A step that cannot be taken in a directory lacks the entry that it names. -/
theorem takes_or_missing (hl : t.isDirectory l = true) (c : Component) :
    (∃ next more used, t.Takes l c next more used) ∨
      ∀ n rest, t.resolveFrom n l (c :: rest) = .error .missing := by
  cases c with
  | root => exact .inl ⟨_, _, _, .root l⟩
  | current => exact .inl ⟨_, _, _, .current l⟩
  | parent => exact .inl ⟨_, _, _, .parent l⟩
  | normal name =>
    cases he : t.find? (l ++ [name]) with
    | none => exact .inr fun n rest => by cases n <;> simp [resolveFrom, follow, hl, he]
    | some e =>
      cases e with
      | link q => exact .inl ⟨_, _, _, .jump he⟩
      | _ => exact .inl ⟨_, _, _, .enter he (by simp)⟩

theorem Leads.resolveFrom_eq {k : Nat} (h : t.Leads l steps k m) (n : Nat) :
    t.resolveFrom n l steps = if k ≤ n then .ok m else .error .tooManyLinks := by
  induction h generalizing n with
  | stay => simp [resolveFrom_nil]
  | @step _ _ _ _ _ used links _ hl htakes _ ih =>
    rw [htakes.resolveFrom_eq hl, ih]
    by_cases hused : used ≤ n
    · rw [if_pos hused]
      exact if_congr (by omega) rfl rfl
    · rw [if_neg hused, if_neg (by omega)]

theorem exists_leads_of_jump {n : Nat}
    (hjump : ∀ l steps, 0 < n → t.resolveFrom (n - 1) l steps = .ok m →
      ∃ k ≤ n - 1, t.Leads l steps k m)
    (h : t.resolveFrom n l steps = .ok m) : ∃ k ≤ n, t.Leads l steps k m := by
  induction steps generalizing l with
  | nil =>
    obtain rfl : l = m := by simpa [resolveFrom_nil] using h
    exact ⟨0, Nat.zero_le n, .stay l⟩
  | cons c rest ih =>
    cases hl : t.isDirectory l with
    | false => simp [resolveFrom_of_not_directory hl] at h
    | true =>
      rcases takes_or_missing hl c with ⟨next, more, used, htakes⟩ | hmissing
      · rw [htakes.resolveFrom_eq hl] at h
        rcases htakes.used_cases with ⟨rfl, rfl⟩ | rfl
        · obtain ⟨k, hk, hleads⟩ := ih (by simpa using h)
          exact ⟨0 + k, by omega, .step hl htakes hleads⟩
        · by_cases hn : 1 ≤ n
          · obtain ⟨k, hk, hleads⟩ := hjump _ _ hn (by simpa [hn] using h)
            exact ⟨1 + k, by omega, .step hl htakes hleads⟩
          · simp [hn] at h
      · simp [hmissing] at h

theorem exists_leads_of_resolveFrom {n : Nat} (h : t.resolveFrom n l steps = .ok m) :
    ∃ k ≤ n, t.Leads l steps k m := by
  -- A link may put many steps before the rest, so the steps get fewer only between two links.
  induction n generalizing l steps with
  | zero => exact exists_leads_of_jump (fun _ _ hn => absurd hn (Nat.lt_irrefl 0)) h
  | succ n ih => exact exists_leads_of_jump (fun _ _ _ => ih) h

theorem resolveFrom_eq_ok_iff {n : Nat} :
    t.resolveFrom n l steps = .ok m ↔ ∃ k ≤ n, t.Leads l steps k m := by
  refine ⟨exists_leads_of_resolveFrom, ?_⟩
  rintro ⟨k, hk, hleads⟩
  rw [hleads.resolveFrom_eq, if_pos hk]

theorem Leads.append {k k' : Nat} {m' : Location} {more : List Component}
    (h : t.Leads l steps k m) (h' : t.Leads m more k' m') :
    t.Leads l (steps ++ more) (k + k') m' := by
  induction h with
  | stay l => simpa using h'
  | step hl htakes _ ih =>
    rw [Nat.add_assoc, List.cons_append]
    refine .step hl htakes ?_
    rw [← List.append_assoc]
    exact ih h'

/-- Steps that lead somewhere lead to a place in between after the first part of them. -/
theorem Leads.exists_between {k : Nat} {more : List Component}
    (h : t.Leads l (steps ++ more) k m) :
    ∃ k₁ k₂ place, t.Leads l steps k₁ place ∧ t.Leads place more k₂ m ∧ k = k₁ + k₂ := by
  generalize hall : steps ++ more = all at h
  induction h generalizing steps with
  | stay l =>
    obtain ⟨rfl, rfl⟩ := List.append_eq_nil_iff.1 hall
    exact ⟨0, 0, l, .stay l, .stay l, rfl⟩
  | @step l c next before rest used links m hl htakes hleads ih =>
    rcases List.append_eq_cons_iff.1 hall with ⟨rfl, rfl⟩ | ⟨steps, rfl, rfl⟩
    · exact ⟨0, used + links, l, .stay l, .step hl htakes hleads, (Nat.zero_add _).symm⟩
    · obtain ⟨k₁, k₂, place, h₁, h₂, rfl⟩ := ih (List.append_assoc before steps more)
      exact ⟨used + k₁, k₂, place, .step hl htakes h₁, h₂, (Nat.add_assoc used k₁ k₂).symm⟩

def IsReal (t : FileTree) (l : Location) : Prop := ∃ e, t.find? l = some e ∧ ∀ q, e ≠ .link q

theorem isReal_of_isDirectory (hl : t.isDirectory l = true) : t.IsReal l :=
  ⟨.directory, isDirectory_iff.1 hl, by simp⟩

namespace WellFormed

variable (ht : t.WellFormed)
include ht

/-- What steps lead to in a tree is there and is no link. -/
theorem isReal_of_leads {k : Nat} (h : t.Leads l steps k m) (hl : t.IsReal l) : t.IsReal m := by
  induction h with
  | stay => exact hl
  | step hdir htakes _ ih =>
    apply ih
    cases htakes with
    | root => exact isReal_of_isDirectory isDirectory_nil
    | current => exact hl
    | parent => exact isReal_of_isDirectory (ht.isDirectory_of_dropLast hdir)
    | enter he hlink => exact ⟨_, he, hlink⟩
    | jump => exact hl

/-- In a tree names lead straight down to what is no link. -/
theorem leads_names (l : Location) {names : List String} (h : t.IsReal (l ++ names)) :
    t.Leads l (names.map .normal) 0 (l ++ names) := by
  induction names generalizing l with
  | nil => simpa using Leads.stay l
  | cons name names ih =>
    have hdir : t.isDirectory l = true := by
      obtain ⟨e, he, -⟩ := h
      exact ht.isDirectory_of_find?_append he (List.cons_ne_nil name names)
    rw [List.append_cons] at h ⊢
    refine .cons hdir ?_ (ih _ h)
    by_cases hnil : names = []
    · subst hnil
      rw [List.append_nil] at h
      obtain ⟨e, he, hlink⟩ := h
      exact .enter he hlink
    · obtain ⟨e, he, -⟩ := h
      exact .enter (isDirectory_iff.1 (ht.isDirectory_of_find?_append he hnil)) (by simp)

end WellFormed

theorem ofStep_toList {s : String} (h : IsOrdinary s) : Component.ofStep s.toList = .normal s := by
  obtain ⟨hname, hdot, hdots⟩ := isOrdinary_iff_ne.1 h
  have htext : s = String.ofList s.toList := String.ofList_toList.symm
  unfold Component.ofStep
  split
  next hnil => exact absurd (String.toList_eq_nil_iff.1 hnil) hname.1
  next hs => exact absurd (by rw [htext, hs]) hdot
  next hs => exact absurd (by rw [htext, hs]) hdots
  · rw [String.ofList_toList]

theorem steps_path {l : Location} (h : ∀ s ∈ l, IsOrdinary s) :
    l.path.steps = .root :: .current :: if l = [] then [.current] else l.map .normal := by
  have habs : l.path.isAbsolute = true := by simp [Location.path, Path.isAbsolute]
  have htext : l.path.text.toList = '/' :: (Path.ofNames l).text.toList := by
    simp [Location.path, Path.ofNames]
  rw [Path.steps, habs, if_pos rfl, htext, Text.fields, if_pos rfl, List.map_cons]
  by_cases hl : l = []
  · subst hl
    rfl
  · rw [if_neg hl, Path.fields_ofNames hl fun s hs => (h s hs).isName, List.map_map]
    congr 2
    exact List.map_congr_left fun s hs => ofStep_toList (h s hs)

/-- An absolute path leads from any directory where its names lead from the top. -/
theorem Leads.path {names : List String} {k : Nat} {here : Location}
    (hnames : ∀ s ∈ names, IsOrdinary s) (hhere : t.isDirectory here = true)
    (h : t.Leads [] (names.map .normal) k m) : t.Leads here (Location.path names).steps k m := by
  have hsteps : t.Leads [] (if names = [] then [.current] else names.map .normal) k m := by
    split
    next hnil =>
      subst hnil
      exact .cons isDirectory_nil (.current []) h
    · exact h
  rw [steps_path hnames]
  exact .cons hhere (.root here) (.cons isDirectory_nil (.current []) hsteps)

theorem text_path_ne_empty (l : Location) : l.path.text.isEmpty = false := by
  rw [String.isEmpty_eq_false_iff]
  intro he
  have hlist := congrArg String.toList he
  simp [Location.path] at hlist

theorem resolve_path {l : Location} {k : Nat} (h : t.Leads t.current l.path.steps k m) :
    t.resolve l.path = if k ≤ maxLinks then .ok m else .error .tooManyLinks := by
  rw [resolve, text_path_ne_empty, if_neg Bool.false_ne_true, h.resolveFrom_eq]

end CodeAtlas.FileTree
