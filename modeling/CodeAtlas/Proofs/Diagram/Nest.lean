import Mathlib.Data.List.Forall2

namespace CodeAtlas

inductive Nest (α : Type) where
  | node (label : α) (inner : List (Nest α))

def Nest.labels {α : Type} : Nest α → List α
  | .node label inner => label :: inner.flatMap labels

/-- Whether the nest is found from a place on, where `next` tells which places are inside. -/
inductive Unfolds {α : Type} (label : Nat → Option α) (next : Nat → List Nat) :
    Nat → Nest α → Prop
  | node {i : Nat} {a : α} {inner : List (Nest α)} (hlabel : label i = some a)
      (hinner : List.Forall₂ (Unfolds label next) (next i) inner) :
      Unfolds label next i (.node a inner)

section Unfolds
variable {α : Type} {label label' : Nat → Option α} {next next' : Nat → List Nat} {i : Nat}

theorem exists_forall₂ {β γ : Type} {R : β → γ → Prop} {xs : List β} (h : ∀ x ∈ xs, ∃ y, R x y) :
    ∃ ys, List.Forall₂ R xs ys := by
  induction xs with
  | nil => exact ⟨[], .nil⟩
  | cons x xs ih =>
    obtain ⟨y, hy⟩ := h x List.mem_cons_self
    obtain ⟨ys, hys⟩ := ih fun z hz => h z (List.mem_cons_of_mem x hz)
    exact ⟨y :: ys, .cons hy hys⟩

/-- A walk that only goes on to later places, and not beyond `size`, ends. -/
theorem exists_unfolds {size : Nat} (hlabel : ∀ i < size, (label i).isSome)
    (hnext : ∀ i < size, ∀ c ∈ next i, i < c ∧ c < size) (hi : i < size) :
    ∃ n, Unfolds label next i n := by
  induction hk : size - i using Nat.strongRecOn generalizing i with
  | ind k ih =>
    obtain ⟨a, ha⟩ := Option.isSome_iff_exists.1 (hlabel i hi)
    have hinner : ∀ c ∈ next i, ∃ n, Unfolds label next c n := by
      intro c hc
      obtain ⟨hlt, hsize⟩ := hnext i hi c hc
      exact ih (size - c) (by omega) hsize rfl
    obtain ⟨inner, hinner⟩ := exists_forall₂ hinner
    exact ⟨.node a inner, .node ha hinner⟩

theorem Unfolds.congr {size : Nat} {n : Nest α} (hlabel : ∀ i < size, label i = label' i)
    (hagree : ∀ i < size, next i = next' i) (hnext : ∀ i < size, ∀ c ∈ next i, i < c ∧ c < size)
    (hi : i < size) (h : Unfolds label next i n) : Unfolds label' next' i n := by
  induction hk : size - i using Nat.strongRecOn generalizing i n with
  | ind k ih =>
    cases h with
    | @node _ a inner ha hinner =>
      have hmem := (List.forall₂_and_left (next i) inner).2 ⟨fun c hc => hc, hinner⟩
      refine .node (hlabel i hi ▸ ha) (hagree i hi ▸ hmem.imp ?_)
      rintro c n ⟨hc, hn⟩
      obtain ⟨hlt, hsize⟩ := hnext i hi c hc
      exact ih (size - c) (by omega) hsize hn rfl

theorem flatMap_eq_of_forall₂ {β γ δ : Type} {f : β → List δ} {g : γ → List δ} {xs : List β}
    {ys : List γ} (h : List.Forall₂ (fun x y => f x = g y) xs ys) :
    xs.flatMap f = ys.flatMap g := by
  induction h with
  | nil => rfl
  | cons hxy _ ih => rw [List.flatMap_cons, List.flatMap_cons, hxy, ih]

end Unfolds
end CodeAtlas
