import CodeAtlas.Proofs.Files.Growth
import CodeAtlas.Proofs.Files.SideBySide

/-!
# Changes that can be made again

Directories that are made and files that are written let a tree grow. What was made is then there, so
to make it again changes nothing, and what was written is written again at the same place.
-/
namespace CodeAtlas

variable {t u v : FileTree} {p : Path} {base : Location}

/-- The fields of a path from the last to the first, but for the slashes at its end. -/
def Path.lastFields (p : Path) : List (List Char) :=
  (Text.fields '/' p.text.toList).reverse.dropWhile List.isEmpty

def Path.stepsDownTo (p : Path) (above : List (List Char)) : List Component :=
  (if p.isAbsolute then [.root] else []) ++ above.reverse.map Component.ofStep

theorem exists_steps_eq {last : List Char} {above : List (List Char)}
    (h : p.lastFields = last :: above) : ∃ n, p.steps =
      p.stepsDownTo above ++ Component.ofStep last :: List.replicate n .current := by
  have hvoid : ∀ f ∈ (Text.fields '/' p.text.toList).reverse.takeWhile List.isEmpty, f = [] := by
    intro f hf
    exact List.isEmpty_iff.1 (List.all_eq_true.1 List.all_takeWhile f hf)
  have hfields := (Text.fields '/' p.text.toList).reverse.takeWhile_append_dropWhile
    (p := List.isEmpty)
  rw [← Path.lastFields, h, List.eq_replicate_of_mem hvoid, ← List.reverse_eq_iff] at hfields
  generalize ((Text.fields '/' p.text.toList).reverse.takeWhile List.isEmpty).length = n at hfields
  refine ⟨n, ?_⟩
  rw [Path.steps, Path.stepsDownTo, ← hfields]
  simp only [List.reverse_append, List.reverse_cons, List.reverse_replicate, List.map_append,
    List.map_cons, List.map_nil, List.map_replicate, Component.ofStep]
  split <;> simp

theorem Path.not_mem_of_mem_lastFields {f : List Char} (h : f ∈ p.lastFields) : '/' ∉ f :=
  Text.not_mem_of_mem_fields (List.mem_reverse.1 ((List.dropWhile_suffix _).subset h))

/-- A step that is a name is spelled as the name. -/
theorem eq_toList_of_ofStep {field : List Char} {s : String} (hslash : '/' ∉ field)
    (h : Component.ofStep field = .normal s) : field = s.toList ∧ IsOrdinary s := by
  have hfield : Component.ofField? false field = some (.normal s) := by
    unfold Component.ofStep at h
    split at h
    · simp at h
    · simp at h
    · simp at h
    next hnil hdot hdots =>
      unfold Component.ofField?
      split
      · exact absurd rfl hnil
      · exact absurd rfl hdot
      · exact absurd rfl hdots
      · rw [h]
  refine ⟨?_, isOrdinary_iff.2 (isName_of_ofField? hslash hfield)⟩
  rw [ofField?_eq_normal hfield, String.toList_ofList]

namespace FileTree

theorem site_of_slashes (hp : p.text.isEmpty = false) (h : p.lastFields = []) :
    t.site base p = .ok ([], none) := by
  rw [site, hp, if_neg Bool.false_ne_true]
  rw [Path.lastFields] at h
  rw [h]

theorem site_of_last {last : List Char} {above : List (List Char)} (hp : p.text.isEmpty = false)
    (h : p.lastFields = last :: above) : t.site base p =
      (t.resolveFrom maxLinks base (p.stepsDownTo above ++ [.current])).map fun dir =>
        (dir, (Component.ofStep last).normal?) := by
  have hsteps : p.stepsDownTo above ++ [.current] =
      if p.isAbsolute then .root :: (above.reverse.map Component.ofStep ++ [.current])
      else above.reverse.map Component.ofStep ++ [.current] := by
    rw [Path.stepsDownTo]
    split <;> simp
  rw [site, hp, if_neg Bool.false_ne_true]
  rw [Path.lastFields] at h
  rw [h, hsteps]
  rfl

theorem Grows.site (h : Grows t u) {x : Location × Option String} (hx : t.site base p = .ok x) :
    u.site base p = .ok x := by
  by_cases hp : p.text.isEmpty = true
  · simp [FileTree.site, hp] at hx
  · rw [Bool.not_eq_true] at hp
    cases hlast : p.lastFields with
    | nil => rw [site_of_slashes hp hlast] at hx ⊢; exact hx
    | cons last above =>
      rw [site_of_last hp hlast] at hx ⊢
      cases hdir : t.resolveFrom maxLinks base (p.stepsDownTo above ++ [.current]) with
      | error e => simp [hdir, Except.map] at hx
      | ok dir =>
        rw [h.resolveFrom hdir]
        rwa [hdir] at hx

/-- The directory that an entry at a path would stand in, and the name that the path ends in. -/
theorem exists_leads_of_site {dir : Location} {name : String}
    (h : t.site base p = .ok (dir, some name)) : ∃ above k, p.text.isEmpty = false ∧
      p.lastFields = name.toList :: above ∧ IsOrdinary name ∧ k ≤ maxLinks ∧
      t.Leads base (p.stepsDownTo above ++ [.current]) k dir := by
  by_cases hp : p.text.isEmpty = true
  · simp [site, hp] at h
  · rw [Bool.not_eq_true] at hp
    cases hlast : p.lastFields with
    | nil => simp [site_of_slashes hp hlast] at h
    | cons last above =>
      rw [site_of_last hp hlast] at h
      cases hdir : t.resolveFrom maxLinks base (p.stepsDownTo above ++ [.current]) with
      | error e => simp [hdir, Except.map] at h
      | ok d =>
        obtain ⟨rfl, hname⟩ : d = dir ∧ (Component.ofStep last).normal? = some name := by
          simpa [hdir, Except.map] using h
        obtain ⟨k, hk, hleads⟩ := exists_leads_of_resolveFrom hdir
        obtain ⟨rfl, hordinary⟩ := eq_toList_of_ofStep
          (Path.not_mem_of_mem_lastFields (hlast ▸ List.mem_cons_self))
          (Component.normal?_eq_some.1 hname)
        exact ⟨above, k, hp, rfl, hordinary, hk, hleads⟩

theorem Leads.of_current {k : Nat} {l m : Location} {steps : List Component}
    (h : t.Leads l (steps ++ [.current]) k m) :
    t.isDirectory m = true ∧ t.Leads l steps k m := by
  obtain ⟨k₁, k₂, place, h₁, h₂, rfl⟩ := h.exists_between
  cases h₂ with
  | step hdir htakes hstay =>
    cases htakes
    cases hstay
    exact ⟨hdir, by simpa using h₁⟩

theorem leads_replicate_current {l : Location} (hl : t.isDirectory l = true) (n : Nat) :
    t.Leads l (List.replicate n .current) 0 l := by
  induction n with
  | zero => exact .stay l
  | succ n ih => exact .cons hl (.current l) ih

theorem isOrdinary_of_site {dir : Location} {name : String}
    (h : t.site base p = .ok (dir, some name)) : t.isDirectory dir = true ∧ IsOrdinary name := by
  obtain ⟨above, k, -, -, hordinary, -, hleads⟩ := exists_leads_of_site h
  exact ⟨hleads.of_current.1, hordinary⟩

theorem WellFormed.put_site {dir : Location} {name : String} {e : FileEntry} (ht : t.WellFormed)
    (h : t.site base p = .ok (dir, some name)) (hgrows : Grows t (t.put (dir ++ [name]) e)) :
    (t.put (dir ++ [name]) e).WellFormed := by
  obtain ⟨hdir, hordinary⟩ := isOrdinary_of_site h
  refine ht.put hgrows (by rwa [List.dropLast_concat]) fun s hs => ?_
  rcases List.mem_append.1 hs with hs | hs
  · exact ht.isOrdinary_of_find? (isDirectory_iff.1 hdir) s hs
  · rwa [List.mem_singleton.1 hs]

theorem makeDirectory_eq_ok_iff : t.makeDirectory p = .ok u ↔ ∃ dir name,
    t.site t.current p = .ok (dir, some name) ∧ t.find? (dir ++ [name]) = none ∧
      u = t.put (dir ++ [name]) .directory := by
  unfold makeDirectory
  cases hsite : t.site t.current p with
  | error e => simp [bind, Except.bind]
  | ok x =>
    obtain ⟨dir, _ | name⟩ := x
    · simp [bind, Except.bind, throw, throwThe, MonadExceptOf.throw]
    · cases he : t.find? (dir ++ [name]) with
      | none => simp [bind, Except.bind, pure, Except.pure, he, eq_comm]
      | some e => simp [bind, Except.bind, throw, throwThe, MonadExceptOf.throw, he]

theorem isDirectoryAt_of_leads {k : Nat} {m : Location} (hp : p.text.isEmpty = false)
    (h : t.Leads t.current p.steps k m) (hk : k ≤ maxLinks) (hm : t.isDirectory m = true) :
    t.isDirectoryAt p = true := by
  rw [isDirectoryAt, resolve, hp, if_neg Bool.false_ne_true, h.resolveFrom_eq, if_pos hk]
  exact hm

theorem exists_leads_of_isDirectoryAt (h : t.isDirectoryAt p = true) :
    ∃ k m, k ≤ maxLinks ∧ t.Leads t.current p.steps k m ∧ t.isDirectory m = true := by
  unfold isDirectoryAt resolve at h
  split at h
  next m hm =>
    split at hm
    · simp at hm
    · obtain ⟨k, hk, hleads⟩ := exists_leads_of_resolveFrom hm
      exact ⟨k, m, hk, hleads, h⟩
  · simp at h

theorem isDirectoryAt_of_site {dir : Location} {name : String}
    (h : t.site t.current p = .ok (dir, some name)) (hdir : t.isDirectory (dir ++ [name]) = true) :
    t.isDirectoryAt p = true := by
  obtain ⟨above, k, hp, hlast, hordinary, hk, hleads⟩ := exists_leads_of_site h
  obtain ⟨n, hsteps⟩ := exists_steps_eq hlast
  obtain ⟨habove, hleads⟩ := hleads.of_current
  have henter : t.Leads dir (.normal name :: List.replicate n .current) 0 (dir ++ [name]) :=
    .cons habove (.enter (isDirectory_iff.1 hdir) (by simp)) (leads_replicate_current hdir n)
  refine isDirectoryAt_of_leads hp ?_ hk hdir
  rw [hsteps, ofStep_toList hordinary]
  exact hleads.append henter

/-- A directory that is there is in the way of a new one. -/
theorem makeDirectory_of_isDirectoryAt (hp : p.text.isEmpty = false)
    (h : t.isDirectoryAt p = true) : t.makeDirectory p = .error .occupied := by
  obtain ⟨k, m, hk, hleads, -⟩ := exists_leads_of_isDirectoryAt h
  unfold makeDirectory
  cases hlast : p.lastFields with
  | nil =>
    rw [site_of_slashes hp hlast]
    rfl
  | cons last above =>
    obtain ⟨n, hsteps⟩ := exists_steps_eq hlast
    rw [hsteps] at hleads
    obtain ⟨k₁, k₂, place, habove, hrest, rfl⟩ := hleads.exists_between
    obtain ⟨hplace, hentry⟩ : t.isDirectory place = true ∧ ∀ name,
        Component.ofStep last = .normal name → (t.find? (place ++ [name])).isSome = true := by
      cases hrest with
      | step hplace htakes _ =>
        refine ⟨hplace, fun name hname => ?_⟩
        rw [hname] at htakes
        cases htakes with
        | enter he => simp [he]
        | jump he => simp [he]
    -- The directory to make it in is where the path leads before its last step.
    have hcurrent : t.Leads t.current (p.stepsDownTo above ++ [.current]) (k₁ + 0) place :=
      habove.append (.cons hplace (.current place) (.stay place))
    rw [site_of_last hp hlast, hcurrent.resolveFrom_eq, if_pos (by omega)]
    cases hname : Component.ofStep last with
    | normal name =>
      simp [Except.map, bind, Except.bind, Component.normal?, hentry name hname, throw, throwThe,
        MonadExceptOf.throw]
    | _ => rfl

end FileTree

structure MakesDirectories (t u : FileTree) : Prop extends t.Grows u where
  file : ∀ {l : Location} {c : FileContent},
    u.find? l = some (.file c) → t.find? l = some (.file c)
  wellFormed : t.WellFormed → u.WellFormed

namespace MakesDirectories

theorem refl (t : FileTree) : MakesDirectories t t := ⟨.refl t, id, id⟩

theorem find?_eq_file (h : MakesDirectories t u) {l : Location} {c : FileContent}
    (hc : t.find? l = some (.file c)) : u.find? l = some (.file c) := by
  obtain ⟨c', hc'⟩ := h.find?_file hc
  rw [hc', ← h.file hc', hc]

theorem find?_eq_directory (h : MakesDirectories t u) {l : Location}
    (hne : u.find? l ≠ t.find? l) : u.find? l = some .directory := by
  cases he : u.find? l with
  | none =>
    have hnone : t.find? l = none := by
      by_contra hsome
      obtain ⟨e, hold⟩ := Option.ne_none_iff_exists'.1 hsome
      obtain ⟨e', he', -⟩ := h.keeps hold
      simp [he] at he'
    exact absurd (he.trans hnone.symm) hne
  | some e =>
    cases e with
    | directory => rfl
    | file c => exact absurd (he.trans (h.file he).symm) hne
    | link q => exact absurd (he.trans (h.link he).symm) hne

end MakesDirectories

theorem makesDirectories_of_makeDirectory (h : t.makeDirectory p = .ok u) :
    MakesDirectories t u ∧ u.isDirectoryAt p = true := by
  obtain ⟨dir, name, hsite, hnone, rfl⟩ := FileTree.makeDirectory_eq_ok_iff.1 h
  have hgrows : FileTree.Grows t (t.put (dir ++ [name]) .directory) :=
    FileTree.grows_put (by simp) (.inl hnone)
  have hput := t.find?_put_self (l := dir ++ [name]) (by simp) .directory
  refine ⟨⟨hgrows, fun {l c} hc => ?_, fun ht => ht.put_site hsite hgrows⟩, ?_⟩
  · by_cases hl : l = dir ++ [name]
    · simp [hl, hput] at hc
    · rwa [t.find?_put_of_ne hl] at hc
  · exact FileTree.isDirectoryAt_of_site (hgrows.site hsite) (FileTree.isDirectory_iff.2 hput)

/-! ### Making directories -/

/-- Whether nothing is left to make at a path; at the empty one there never is. -/
def FileTree.IsMade (t : FileTree) (p : Path) : Prop :=
  p.text.isEmpty = true ∨ t.isDirectoryAt p = true

theorem FileTree.Grows.isMade (h : FileTree.Grows t u) (hp : t.IsMade p) : u.IsMade p :=
  hp.imp_right h.isDirectoryAt

namespace Work

def Made (p : Path) (outcome : Except FileFault Unit) (t : FileTree) : Prop :=
  outcome = .ok () → t.IsMade p

section Make
variable {R : FileTree → FileTree → Prop} (hmake : ∀ {t u}, MakesDirectories t u → R t u)
include hmake

theorem ensures_expectDirectory (p : Path) (e : FileFault) (t : FileTree) :
    (expectDirectory p e).Ensures R (Made p) t := by
  intro b _
  refine ⟨hmake (.refl b), ?_⟩
  cases hdir : b.isDirectoryAt p with
  | true =>
    simp only [hdir]
    exact fun _ => .inr hdir
  | false =>
    simp only [hdir]
    exact nofun

theorem ensures_makeOne (p : Path) (t : FileTree) : (makeOne p).Ensures R (Made p) t := by
  intro b _
  cases hb : b.makeDirectory p with
  | ok u =>
    obtain ⟨hmakes, hdir⟩ := makesDirectories_of_makeDirectory hb
    simp only [hb]
    exact ⟨hmake hmakes, fun _ => .inr hdir⟩
  | error e =>
    simp only [hb]
    exact ⟨hmake (.refl b), ensures_expectDirectory hmake p e b⟩

theorem ensures_makeFirst_cons (p : Path) (above : List Path)
    (habove : ∀ t, (makeFirst above).Ensures R (fun _ _ => True) t) (t : FileTree) :
    (makeFirst (p :: above)).Ensures R (Made p) t := by
  rw [makeFirst]
  by_cases hp : p.text.isEmpty = true
  · rw [if_pos hp]
    exact fun _ => .inl hp
  · rw [if_neg hp]
    intro b _
    cases hb : b.makeDirectory p with
    | ok u =>
      obtain ⟨hmakes, hdir⟩ := makesDirectories_of_makeDirectory hb
      simp only [hb]
      exact ⟨hmake hmakes, fun _ => .inr hdir⟩
    | error e =>
      simp only [hb]
      refine ⟨hmake (.refl b), ?_⟩
      cases e with
      | missing =>
        exact (habove b).bind (fun _ u _ => ensures_makeOne hmake p u) fun _ _ _ => nofun
      | _ => exact ensures_expectDirectory hmake p _ b

theorem ensures_makeFirst (p : Path) (above : List Path) (t : FileTree) :
    (makeFirst (p :: above)).Ensures R (Made p) t := by
  induction above generalizing p t with
  | nil => exact ensures_makeFirst_cons hmake p [] (fun _ => trivial) t
  | cons q above ih =>
    exact ensures_makeFirst_cons hmake p _ (fun t => (ih q t).imp fun _ _ _ => trivial) t

omit hmake in
theorem exists_makeDirectories_eq (p : Path) :
    ∃ above, makeDirectories p = makeFirst (p :: above) := by
  unfold makeDirectories
  cases p.components.length with
  | zero => exact ⟨[], rfl⟩
  | succ n =>
    rw [Path.selfAndAbove]
    split
    · exact ⟨[], rfl⟩
    · exact ⟨_, rfl⟩

theorem ensures_makeDirectories (p : Path) (t : FileTree) :
    (makeDirectories p).Ensures R (Made p) t := by
  obtain ⟨above, habove⟩ := exists_makeDirectories_eq p
  rw [habove]
  exact ensures_makeFirst hmake p above t

end Make

/-- Where a directory is and stays, nothing is changed, and nothing can fail. -/
theorem ensures_makeDirectories_of_isMade {R : FileTree → FileTree → Prop} (hrefl : ∀ t, R t t)
    (htrans : ∀ {t u v}, R t u → R u v → R t v) (h : ∀ u, R t u → u.IsMade p) :
    (makeDirectories p).Ensures R (fun outcome _ => outcome = .ok ()) t := by
  obtain ⟨above, habove⟩ := exists_makeDirectories_eq p
  rw [habove, makeFirst]
  by_cases hp : p.text.isEmpty = true
  · rw [if_pos hp]
    rfl
  · rw [if_neg hp]
    have hdir : ∀ u, R t u → u.isDirectoryAt p = true := fun u hu => (h u hu).resolve_left hp
    intro b hb
    have hmake := FileTree.makeDirectory_of_isDirectoryAt (Bool.not_eq_true _ ▸ hp) (hdir b hb)
    simp only [hmake]
    refine ⟨hrefl b, fun c hc => ⟨hrefl c, ?_⟩⟩
    simp only [hdir c (htrans hb hc)]
    rfl

end Work

namespace FileTree

theorem target_succ_eq_ok_iff {n : Nat} {l : Location} : t.target (n + 1) base p = .ok l ↔
    ∃ dir name, t.site base p = .ok (dir, some name) ∧ p.text.toList.getLast? ≠ some '/' ∧
      ((∃ q, t.find? (dir ++ [name]) = some (.link q) ∧ t.target n dir q = .ok l) ∨
        (t.find? (dir ++ [name]) = none ∨ ∃ c, t.find? (dir ++ [name]) = some (.file c)) ∧
          l = dir ++ [name]) := by
  rw [target]
  cases hsite : t.site base p with
  | error e => simp [bind, Except.bind]
  | ok x =>
    obtain ⟨dir, _ | name⟩ := x
    · simp [bind, Except.bind, throw, throwThe, MonadExceptOf.throw]
    · by_cases hslash : p.text.toList.getLast? = some '/'
      · simp [bind, Except.bind, throw, throwThe, MonadExceptOf.throw, hslash]
      · cases he : t.find? (dir ++ [name]) with
        | none => simp [bind, Except.bind, pure, Except.pure, hslash, he, eq_comm]
        | some e =>
          cases e <;> simp [bind, Except.bind, pure, Except.pure, throw, throwThe,
            MonadExceptOf.throw, hslash, he, eq_comm]

theorem find?_target {n : Nat} {l : Location} (h : t.target n base p = .ok l) :
    t.find? l = none ∨ ∃ c, t.find? l = some (.file c) := by
  induction n generalizing base p with
  | zero => simp [target] at h
  | succ n ih =>
    obtain ⟨dir, name, -, -, ⟨q, -, htarget⟩ | ⟨hfree, rfl⟩⟩ := target_succ_eq_ok_iff.1 h
    · exact ih htarget
    · exact hfree

theorem target_ne_nil {n : Nat} {l : Location} (h : t.target n base p = .ok l) : l ≠ [] := by
  apply ne_nil_of_find?_ne_directory (t := t)
  rcases find?_target h with hnone | ⟨c, hc⟩
  · simp [hnone]
  · simp [hc]

theorem grows_put_target {n : Nat} {l : Location} (h : t.target n base p = .ok l)
    (c : FileContent) : Grows t (t.put l (.file c)) := by
  refine grows_put (by simp) ((find?_target h).imp_right ?_)
  rintro ⟨old, hold⟩
  exact ⟨old, c, hold, rfl⟩

theorem WellFormed.put_target {n : Nat} {l : Location} (ht : t.WellFormed)
    (h : t.target n base p = .ok l) (c : FileContent) : (t.put l (.file c)).WellFormed := by
  have hgrows := grows_put_target h c
  induction n generalizing base p with
  | zero => simp [target] at h
  | succ n ih =>
    obtain ⟨dir, name, hsite, -, ⟨q, -, htarget⟩ | ⟨-, rfl⟩⟩ := target_succ_eq_ok_iff.1 h
    · exact ih htarget
    · exact ht.put_site hsite hgrows

theorem exists_name_of_target {n : Nat} {l : Location} (hlinks : ∀ m q, t.find? m ≠ some (.link q))
    (h : t.target n base p = .ok l) :
    ∃ name above, p.lastFields = name.toList :: above ∧ IsOrdinary name ∧
      l.getLast? = some name := by
  cases n with
  | zero => simp [target] at h
  | succ n =>
    obtain ⟨dir, name, hsite, -, ⟨q, hq, -⟩ | ⟨-, rfl⟩⟩ := target_succ_eq_ok_iff.1 h
    · exact absurd hq (hlinks _ q)
    · obtain ⟨above, k, -, hlast, hname, -⟩ := exists_leads_of_site hsite
      exact ⟨name, above, hlast, hname, List.getLast?_concat⟩

/-- Once they are written, bytes go to the same file again. -/
theorem Grows.target (h : Grows t u) {n : Nat} {l : Location} (hl : t.target n base p = .ok l)
    {c : FileContent} (hc : u.find? l = some (.file c)) : u.target n base p = .ok l := by
  induction n generalizing base p with
  | zero => simp [FileTree.target] at hl
  | succ n ih =>
    obtain ⟨dir, name, hsite, hslash, ⟨q, hq, htarget⟩ | ⟨-, rfl⟩⟩ := target_succ_eq_ok_iff.1 hl
    · exact target_succ_eq_ok_iff.2
        ⟨dir, name, h.site hsite, hslash, .inl ⟨q, h.find?_link hq, ih htarget⟩⟩
    · exact target_succ_eq_ok_iff.2 ⟨dir, name, h.site hsite, hslash, .inr ⟨.inr ⟨c, hc⟩, rfl⟩⟩

theorem Grows.destination (h : Grows t u) {l : Location} (hl : t.destination p = .ok l)
    {c : FileContent} (hc : u.find? l = some (.file c)) : u.destination p = .ok l := by
  unfold FileTree.destination at hl ⊢
  rw [h.current]
  exact h.target hl hc

end FileTree
end CodeAtlas
