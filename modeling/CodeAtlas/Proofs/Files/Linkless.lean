import CodeAtlas.Proofs.Files.Changes
import CodeAtlas.Proofs.Path.Names

namespace CodeAtlas

/-- Where a step leads from a location if there is no link. -/
def Location.next (l : Location) : Component → Location
  | .root => []
  | .current => l
  | .parent => l.dropLast
  | .normal s => l ++ [s]

/-! ### Steps and components -/

theorem foldl_next_ofField? (isFirst : Bool) (field : List Char) (l : Location) :
    (Component.ofField? isFirst field).toList.foldl Location.next l =
      l.next (Component.ofStep field) := by
  unfold Component.ofStep
  split
  · rfl
  · cases isFirst <;> rfl
  · rfl
  next hnil hdot hdots =>
    unfold Component.ofField?
    split
    · exact absurd rfl hnil
    · exact absurd rfl hdot
    · exact absurd rfl hdots
    · rfl

theorem foldl_next_bodyComponents (isFirst : Bool) (fields : List (List Char)) (l : Location) :
    (Path.bodyComponents isFirst fields).foldl Location.next l =
      (fields.map Component.ofStep).foldl Location.next l := by
  induction fields generalizing isFirst l with
  | nil => rfl
  | cons f fields ih =>
    rw [Path.bodyComponents_cons, List.foldl_append, ih, List.map_cons, List.foldl_cons,
      foldl_next_ofField?]

theorem foldl_next_components (p : Path) (l : Location) :
    p.components.foldl Location.next l = p.steps.foldl Location.next l := by
  unfold Path.components Path.steps
  dsimp only
  split <;> simp only [List.foldl_cons, foldl_next_bodyComponents]

theorem foldl_next_join (p : Path) {q : Path} (hq : q.isAbsolute = false) (l : Location) :
    (p.join q).steps.foldl Location.next l =
      q.components.foldl Location.next (p.components.foldl Location.next l) := by
  by_cases hp : p.text = ""
  · have hjoin : p.join q = q := by simp [Path.join, hq, hp]
    have hnone : p.components = [] := by
      obtain ⟨text⟩ := p
      obtain rfl : text = "" := hp
      decide
    rw [hjoin, hnone, foldl_next_components]
    rfl
  · obtain ⟨s, hjoin, cs, hfields, hsame⟩ := Path.exists_text_join hp hq
    rw [← foldl_next_components, Path.components_eq_bodyComponents, hjoin,
      Path.isAbsolute_append hp, hfields, List.foldl_append, foldl_next_bodyComponents,
      List.map_append, List.foldl_append]
    rw [Path.components_eq_bodyComponents p, List.foldl_append, hsame, foldl_next_bodyComponents,
      foldl_next_components q]
    unfold Path.steps
    rw [hq]
    rfl

/-- Names lead down to where they say. -/
theorem foldl_next_names {cs : List Component} (h : ∀ c ∈ cs, c = .current ∨ ∃ s, c = .normal s)
    (l : Location) : cs.foldl Location.next l = l ++ cs.filterMap Component.normal? := by
  induction cs generalizing l with
  | nil => exact (List.append_nil l).symm
  | cons c cs ih =>
    have hrest := fun l => ih (fun c hc => h c (List.mem_cons_of_mem _ hc)) l
    rcases h c List.mem_cons_self with rfl | ⟨s, rfl⟩
    · exact hrest l
    · rw [List.foldl_cons, hrest]
      simp [Location.next, Component.normal?]

theorem foldl_next_replicate (n : Nat) (l : Location) :
    (List.replicate n .current).foldl Location.next l = l := by
  induction n with
  | zero => rfl
  | succ n ih => exact ih

namespace FileTree

def Linkless (t : FileTree) : Prop := ∀ l q, t.find? l ≠ some (.link q)

variable {t u : FileTree} {l m : Location}

theorem Grows.linkless (h : Grows t u) (ht : t.Linkless) : u.Linkless :=
  fun l q hq => ht l q (h.link hq)

theorem Leads.eq_foldl (ht : t.Linkless) {k : Nat} {steps : List Component}
    (h : t.Leads l steps k m) : m = steps.foldl Location.next l := by
  induction h with
  | stay l => rfl
  | step _ htakes _ ih =>
    cases htakes with
    | jump hlink => exact absurd hlink (ht _ _)
    | _ => exact ih

theorem destination_eq (ht : t.Linkless) {p : Path} (h : t.destination p = .ok l) :
    l = p.steps.foldl Location.next t.current := by
  obtain ⟨dir, name, hsite, -, ⟨q, hq, -⟩ | ⟨-, rfl⟩⟩ := target_succ_eq_ok_iff.1 h
  · exact absurd hq (ht _ q)
  · obtain ⟨above, k, -, hlast, hname, -, hleads⟩ := exists_leads_of_site hsite
    obtain ⟨n, hsteps⟩ := exists_steps_eq hlast
    have hdir := hleads.of_current.2.eq_foldl ht
    rw [hsteps, ofStep_toList hname, List.foldl_append, List.foldl_cons, ← hdir]
    exact (foldl_next_replicate n _).symm

end FileTree
end CodeAtlas
