import Mathlib.Data.List.Basic

namespace CodeAtlas

variable {ε α β : Type}

theorem Except.bind_eq_ok_iff {x : Except ε α} {f : α → Except ε β} {b : β} :
    x >>= f = .ok b ↔ ∃ a, x = .ok a ∧ f a = .ok b := by
  cases x with
  | error e => simp [bind, Except.bind]
  | ok a => simp [bind, Except.bind]

theorem Except.pure_eq_ok_iff {a b : α} : (pure a : Except ε α) = .ok b ↔ a = b := by
  simp [pure, Except.pure]

theorem mapM_eq_ok {f : α → Except ε β} {xs : List α} {ys : List β} :
    xs.mapM f = .ok ys ↔ xs.map f = ys.map .ok := by
  induction xs generalizing ys with
  | nil => simp [pure, Except.pure, eq_comm]
  | cons x xs ih =>
    simp only [List.mapM_cons, List.map_cons, Except.bind_eq_ok_iff, Except.pure_eq_ok_iff, ih]
    constructor
    · rintro ⟨y, hy, rest, hrest, rfl⟩
      rw [List.map_cons, hy, hrest]
    · intro h
      obtain ⟨y, rest, rfl, hy, hrest⟩ := List.map_eq_cons_iff.1 h.symm
      exact ⟨y, hy.symm, rest, hrest.symm, rfl⟩

theorem mapM_eq_some {f : α → Option β} {xs : List α} {ys : List β} :
    xs.mapM f = some ys ↔ xs.map f = ys.map some := by
  induction xs generalizing ys with
  | nil =>
    rw [List.mapM_nil, List.map_nil, Option.pure_def, Option.some_inj]
    constructor
    · rintro rfl
      rfl
    · intro h
      exact (List.map_eq_nil_iff.1 h.symm).symm
  | cons x xs ih =>
    simp only [List.mapM_cons, List.map_cons, Option.bind_eq_bind, Option.bind_eq_some_iff,
      Option.pure_def, Option.some_inj, ih]
    constructor
    · rintro ⟨y, hy, rest, hrest, rfl⟩
      rw [List.map_cons, hy, hrest]
    · intro h
      obtain ⟨y, rest, rfl, hy, hrest⟩ := List.map_eq_cons_iff.1 h.symm
      exact ⟨y, hy.symm, rest, hrest.symm, rfl⟩

theorem exists_mapM_eq_ok {f : α → Except ε β} {xs : List α} (h : ∀ x ∈ xs, ∃ y, f x = .ok y) :
    ∃ ys, xs.mapM f = .ok ys := by
  induction xs with
  | nil => exact ⟨[], rfl⟩
  | cons x xs ih =>
    obtain ⟨y, hy⟩ := h x List.mem_cons_self
    obtain ⟨ys, hys⟩ := ih fun x hx => h x (List.mem_cons_of_mem _ hx)
    refine ⟨y :: ys, mapM_eq_ok.2 ?_⟩
    rw [List.map_cons, List.map_cons, hy, mapM_eq_ok.1 hys]

theorem mem_of_mapM_eq_ok {f : α → Except ε β} {xs : List α} {ys : List β}
    (h : xs.mapM f = .ok ys) {y : β} : y ∈ ys ↔ ∃ x ∈ xs, f x = .ok y := by
  rw [← List.mem_map, mapM_eq_ok.1 h]
  exact (List.mem_map_of_injective fun _ _ => Except.ok.inj).symm

end CodeAtlas
