import CodeAtlas.Files.Change
import CodeAtlas.Proofs.Files.Following

namespace CodeAtlas.FileTree

/-- Whether `u` has what `t` has, but for the content of files, and no new link. -/
structure Grows (t u : FileTree) : Prop where
  current : u.current = t.current
  keeps : ∀ {l : Location} {e : FileEntry}, t.find? l = some e →
    ∃ e', u.find? l = some e' ∧ e'.shape = e.shape
  link : ∀ {l : Location} {q : Path}, u.find? l = some (.link q) → t.find? l = some (.link q)

variable {t u v : FileTree} {l m : Location} {steps : List Component} {p : Path}

namespace Grows

theorem refl (t : FileTree) : Grows t t := ⟨rfl, fun h => ⟨_, h, rfl⟩, id⟩

theorem trans (h : Grows t u) (h' : Grows u v) : Grows t v where
  current := h'.current.trans h.current
  keeps he := by
    obtain ⟨e, he, hshape⟩ := h.keeps he
    obtain ⟨e', he', hshape'⟩ := h'.keeps he
    exact ⟨e', he', hshape'.trans hshape⟩
  link he := h.link (h'.link he)

variable (h : Grows t u)
include h

theorem find?_directory (he : t.find? l = some .directory) : u.find? l = some .directory := by
  obtain ⟨e, he, hshape⟩ := h.keeps he
  rw [he, FileEntry.shape_eq_directory.1 hshape]

theorem find?_link {q : Path} (he : t.find? l = some (.link q)) : u.find? l = some (.link q) := by
  obtain ⟨e, he, hshape⟩ := h.keeps he
  rw [he, FileEntry.shape_eq_link.1 hshape]

theorem find?_file {c : FileContent} (he : t.find? l = some (.file c)) :
    ∃ c', u.find? l = some (.file c') := by
  obtain ⟨e, he, hshape⟩ := h.keeps he
  obtain ⟨c', rfl⟩ := FileEntry.shape_eq_file.1 hshape
  exact ⟨c', he⟩

theorem isDirectory (hl : t.isDirectory l = true) : u.isDirectory l = true :=
  isDirectory_iff.2 (h.find?_directory (isDirectory_iff.1 hl))

theorem isReal (hl : t.IsReal l) : u.IsReal l := by
  obtain ⟨e, he, hlink⟩ := hl
  obtain ⟨e', he', hshape⟩ := h.keeps he
  refine ⟨e', he', ?_⟩
  rintro q rfl
  exact hlink q (FileEntry.shape_eq_link.1 hshape.symm)

/-- What is there already is a directory after if and only if it was one before. -/
theorem isDirectory_eq (hl : t.IsReal l) : u.isDirectory l = t.isDirectory l := by
  obtain ⟨e, he, hlink⟩ := hl
  cases e with
  | directory => rw [isDirectory_iff.2 he, h.isDirectory (isDirectory_iff.2 he)]
  | file c =>
    obtain ⟨c', he'⟩ := h.find?_file he
    simp [FileTree.isDirectory, he, he']
  | link q => exact absurd rfl (hlink q)

theorem takes {c : Component} {next : Location} {more : List Component} {used : Nat}
    (htakes : t.Takes l c next more used) : u.Takes l c next more used := by
  cases htakes with
  | root => exact .root l
  | current => exact .current l
  | parent => exact .parent l
  | enter he hlink =>
    obtain ⟨e', he', hlink'⟩ := h.isReal ⟨_, he, hlink⟩
    exact .enter he' hlink'
  | jump he => exact .jump (h.find?_link he)

theorem leads {k : Nat} (hleads : t.Leads l steps k m) : u.Leads l steps k m := by
  induction hleads with
  | stay l => exact .stay l
  | step hl htakes _ ih => exact .step (h.isDirectory hl) (h.takes htakes) ih

theorem resolveFrom {n : Nat} (hm : t.resolveFrom n l steps = .ok m) :
    u.resolveFrom n l steps = .ok m := by
  obtain ⟨k, hk, hleads⟩ := resolveFrom_eq_ok_iff.1 hm
  exact resolveFrom_eq_ok_iff.2 ⟨k, hk, h.leads hleads⟩

theorem resolve (hm : t.resolve p = .ok m) : u.resolve p = .ok m := by
  unfold FileTree.resolve at hm ⊢
  split at hm
  · simp at hm
  next hne =>
    rw [if_neg hne, h.current]
    exact h.resolveFrom hm

theorem isDirectoryAt (hp : t.isDirectoryAt p = true) : u.isDirectoryAt p = true := by
  unfold FileTree.isDirectoryAt at hp ⊢
  cases hm : t.resolve p with
  | error e => simp [hm] at hp
  | ok m =>
    rw [h.resolve hm]
    rw [hm] at hp
    exact h.isDirectory hp

end Grows

theorem ne_nil_of_find?_ne_directory (h : t.find? l ≠ some .directory) : l ≠ [] := by
  rintro rfl
  exact h rfl

/-- A new directory, or a file in the place of none or of another one, lets a tree grow. -/
theorem grows_put {e : FileEntry} (hlink : ∀ q, e ≠ .link q)
    (h : t.find? l = none ∨ ∃ c c', t.find? l = some (.file c) ∧ e = .file c') :
    Grows t (t.put l e) := by
  have hl : l ≠ [] := by
    apply ne_nil_of_find?_ne_directory (t := t)
    rcases h with h | ⟨c, -, h, -⟩ <;> simp [h]
  refine ⟨rfl, fun {m old} hold => ?_, fun {m q} hq => ?_⟩
  · by_cases hm : m = l
    · subst hm
      rcases h with h | ⟨c, c', h, rfl⟩
      · simp [h] at hold
      · obtain rfl := Option.some.inj (h.symm.trans hold)
        exact ⟨_, find?_put_self t hl _, rfl⟩
    · exact ⟨old, (find?_put_of_ne t hm e).trans hold, rfl⟩
  · by_cases hm : m = l
    · subst hm
      rw [find?_put_self t hl] at hq
      exact absurd (Option.some.inj hq) (hlink q)
    · rwa [find?_put_of_ne t hm] at hq

/-- A tree that has grown by an entry in a directory of it is a tree. -/
theorem WellFormed.put {e : FileEntry} (ht : t.WellFormed) (h : Grows t (t.put l e))
    (hdir : t.isDirectory l.dropLast = true) (hordinary : ∀ s ∈ l, IsOrdinary s) :
    (t.put l e).WellFormed where
  isDirectory_dropLast := by
    intro x hx
    rcases List.mem_cons.1 hx with rfl | hx
    · exact h.isDirectory hdir
    · exact h.isDirectory (ht.isDirectory_dropLast x (List.mem_filter.1 hx).1)
  isOrdinary := by
    intro x hx
    rcases List.mem_cons.1 hx with rfl | hx
    · exact hordinary
    · exact ht.isOrdinary x (List.mem_filter.1 hx).1

structure Same (t u : FileTree) : Prop where
  current : u.current = t.current
  find?_eq : ∀ l, u.find? l = t.find? l

namespace Same

theorem refl (t : FileTree) : Same t t := ⟨rfl, fun _ => rfl⟩

theorem trans (h : Same t u) (h' : Same u v) : Same t v :=
  ⟨h'.current.trans h.current, fun l => (h'.find?_eq l).trans (h.find?_eq l)⟩

theorem symm (h : Same t u) : Same u t := ⟨h.current.symm, fun l => (h.find?_eq l).symm⟩

theorem grows (h : Same t u) : Grows t u :=
  ⟨h.current, fun {l e} he => ⟨e, (h.find?_eq l).trans he, rfl⟩,
    fun {l _} hq => (h.find?_eq l).symm.trans hq⟩

/-- What is there already may be put in its place once more. -/
theorem put {e : FileEntry} (hl : l ≠ []) (he : t.find? l = some e) : Same t (t.put l e) := by
  refine ⟨rfl, fun m => ?_⟩
  by_cases hm : m = l
  · rw [hm, find?_put_self t hl, he]
  · rw [find?_put_of_ne t hm]

end Same
end CodeAtlas.FileTree
