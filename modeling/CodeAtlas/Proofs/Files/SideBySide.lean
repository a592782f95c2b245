import Mathlib.Data.List.Forall2
import CodeAtlas.Files.Change

/-!
# Works done side by side

Of works that are done side by side any may do the next call. What is known of each of them alone,
as long as the others change the tree only as it can bear, is then so of all of them together.
-/
namespace CodeAtlas.Work

variable {α β ι : Type}

theorem Steps.trans {ws ws' ws'' : List (Work α)} {t u v : FileTree} (h : Steps ws t ws' u)
    (h' : Steps ws' u ws'' v) : Steps ws t ws'' v := by
  induction h with
  | refl ws t => exact h'
  | step before after _ ih => exact .step before after (ih h')

theorem Steps.append {ws ws' : List (Work α)} {t u : FileTree} (h : Steps ws t ws' u)
    (others : List (Work α)) : Steps (ws ++ others) t (ws' ++ others) u := by
  induction h with
  | refl ws t => exact .refl _ t
  | step before after _ ih =>
    simp only [List.append_assoc, List.cons_append] at ih ⊢
    exact .step before _ ih

/-- One work may be done to its end while the others wait. -/
theorem steps_run (before after : List (Work α)) (w : Work α) (t : FileTree) :
    Steps (before ++ w :: after) t (before ++ .done (w.run t).1 :: after) (w.run t).2 := by
  induction w generalizing t with
  | done outcome => exact .refl _ _
  | call change next ih => exact .step before after (ih t (change t))

/-- The order in which works are listed does not matter. -/
theorem Steps.perm {ws ws' vs : List (Work α)} {t u : FileTree} (h : Steps ws t ws' u)
    (hperm : ws.Perm vs) : ∃ vs', Steps vs t vs' u ∧ ws'.Perm vs' := by
  induction h generalizing vs with
  | refl ws t => exact ⟨vs, .refl vs t, hperm⟩
  | @step before after change next t u ws _ ih =>
    have hmem : Work.call change next ∈ vs := hperm.subset (by simp)
    obtain ⟨before', after', rfl⟩ := List.append_of_mem hmem
    have hrest := (List.perm_middle.symm.trans (hperm.trans List.perm_middle)).cons_inv
    obtain ⟨vs', hsteps, hperm'⟩ :=
      ih (List.perm_middle.trans ((hrest.cons (next t)).trans List.perm_middle.symm))
    exact ⟨vs', .step before' after' hsteps, hperm'⟩

/-! ### What a work ensures -/

/-- Whether each call of a work changes the tree in a way of `R` only, and `Q` holds when it is
done, if all that others do to the tree before a call is in a way of `R`. -/
def Ensures (R : FileTree → FileTree → Prop) (Q : Except FileFault α → FileTree → Prop) :
    Work α → FileTree → Prop
  | done outcome, t => Q outcome t
  | call change next, t => ∀ b, R t b → R b (change b) ∧ (next b).Ensures R Q (change b)

section Ensures
variable {R : FileTree → FileTree → Prop} {Q Q' : Except FileFault α → FileTree → Prop}
  {t u : FileTree} {w : Work α}

theorem Ensures.imp (h : w.Ensures R Q t) (hQ : ∀ outcome u, Q outcome u → Q' outcome u) :
    w.Ensures R Q' t := by
  induction w generalizing t with
  | done outcome => exact hQ outcome t h
  | call change next ih => exact fun b hb => ⟨(h b hb).1, ih b (h b hb).2⟩

theorem Ensures.bind {f : α → Work β} {Q' : Except FileFault β → FileTree → Prop}
    (h : w.Ensures R Q t) (hok : ∀ a u, Q (.ok a) u → (f a).Ensures R Q' u)
    (herror : ∀ e u, Q (.error e) u → Q' (.error e) u) : (w >>= f).Ensures R Q' t := by
  induction w generalizing t with
  | done outcome =>
    cases outcome with
    | ok a => exact hok a t h
    | error e => exact herror e t h
  | call change next ih => exact fun b hb => ⟨(h b hb).1, ih b (h b hb).2⟩

theorem Ensures.and_rely (hrefl : ∀ t, R t t) (htrans : ∀ {t u v}, R t u → R u v → R t v)
    (h : w.Ensures R Q t) : w.Ensures R (fun outcome u => R t u ∧ Q outcome u) t := by
  induction w generalizing t with
  | done outcome => exact ⟨hrefl t, h⟩
  | call change next ih =>
    intro b hb
    obtain ⟨hchange, hrest⟩ := h b hb
    exact ⟨hchange, (ih b hrest).imp fun _ _ hu => ⟨htrans (htrans hb hchange) hu.1, hu.2⟩⟩

/-- What a work ensures is so when it is done alone. -/
theorem Ensures.run (hrefl : ∀ t, R t t) (htrans : ∀ {t u v}, R t u → R u v → R t v)
    (h : w.Ensures R Q t) : R t (w.run t).2 ∧ Q (w.run t).1 (w.run t).2 := by
  induction w generalizing t with
  | done outcome => exact ⟨hrefl t, h⟩
  | call change next ih =>
    obtain ⟨hchange, hrest⟩ := h t (hrefl t)
    obtain ⟨hrun, hQ⟩ := ih t hrest
    exact ⟨htrans hchange hrun, hQ⟩

theorem Ensures.of_rely (htrans : ∀ {t u v}, R t u → R u v → R t v)
    (hQ : ∀ outcome {t u}, R t u → Q outcome t → Q outcome u) (h : w.Ensures R Q t) (hu : R t u) :
    w.Ensures R Q u := by
  cases w with
  | done outcome => exact hQ outcome hu h
  | call change next => exact fun b hb => h b (htrans hu hb)

theorem exists_append_of_forall₂ {r : ι → α → Prop} {xs : List ι} {ys zs : List α}
    (h : List.Forall₂ r xs (ys ++ zs)) :
    ∃ first last, xs = first ++ last ∧ List.Forall₂ r first ys ∧ List.Forall₂ r last zs :=
  ⟨xs.take ys.length, xs.drop ys.length, (List.take_append_drop _ xs).symm,
    List.forall₂_take_append _ _ _ h, List.forall₂_drop_append _ _ _ h⟩

/-- What each of the works ensures stays so, whichever of them does the next call. -/
theorem Steps.ensures {xs : List ι} {Q : ι → Except FileFault α → FileTree → Prop}
    {ws ws' : List (Work α)} (hrefl : ∀ t, R t t) (htrans : ∀ {t u v}, R t u → R u v → R t v)
    (hQ : ∀ x outcome {t u}, R t u → Q x outcome t → Q x outcome u) (h : Steps ws t ws' u)
    (hws : List.Forall₂ (fun x w => w.Ensures R (Q x) t) xs ws) :
    R t u ∧ List.Forall₂ (fun x w => w.Ensures R (Q x) u) xs ws' := by
  induction h generalizing xs with
  | refl ws t => exact ⟨hrefl t, hws⟩
  | @step before after change next t u ws _ ih =>
    obtain ⟨first, last, rfl, hbefore, hlast⟩ := exists_append_of_forall₂ hws
    obtain ⟨x, rest, hcall, hafter, rfl⟩ := List.forall₂_cons_right_iff.1 hlast
    obtain ⟨hchange, hnext⟩ := hcall t (hrefl t)
    have hothers : ∀ x (w : Work α), w.Ensures R (Q x) t → w.Ensures R (Q x) (change t) :=
      fun x w hw => hw.of_rely htrans (hQ x) hchange
    have hall : List.Forall₂ (fun x w => w.Ensures R (Q x) (change t)) (first ++ x :: rest)
        (before ++ next t :: after) :=
      List.rel_append (hbefore.imp hothers) (.cons hnext (hafter.imp hothers))
    obtain ⟨hrest, hend⟩ := ih hall
    exact ⟨htrans hchange hrest, hend⟩

theorem Steps.ensures_map {xs : List ι} {f : ι → Work α} {ws : List (Work α)}
    {Q : ι → Except FileFault α → FileTree → Prop} (hrefl : ∀ t, R t t)
    (htrans : ∀ {t u v}, R t u → R u v → R t v)
    (hQ : ∀ x outcome {t u}, R t u → Q x outcome t → Q x outcome u)
    (h : Steps (xs.map f) t ws u) (hf : ∀ x ∈ xs, (f x).Ensures R (Q x) t) :
    R t u ∧ List.Forall₂ (fun x w => w.Ensures R (Q x) u) xs ws := by
  refine h.ensures hrefl htrans hQ ?_
  rw [List.forall₂_map_right_iff, List.forall₂_same]
  exact hf

end Ensures
end CodeAtlas.Work
