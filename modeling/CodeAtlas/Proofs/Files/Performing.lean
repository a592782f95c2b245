import CodeAtlas.Files.Change

namespace CodeAtlas.Filing

variable {ε α β : Type} {t u : FileTree}

@[simp] theorem perform_get : perform (get : Filing ε FileTree) t = (.ok t, t) := rfl

@[simp] theorem perform_liftM (x : Except ε α) : perform (liftM x : Filing ε α) t = (x, t) := rfl

theorem exists_perform_eq_ok (act : Filing ε α) (t : FileTree)
    (h : (perform act t).1.isOk = true) : ∃ a, perform act t = (.ok a, (perform act t).2) := by
  cases hact : perform act t with
  | mk outcome u =>
    cases outcome with
    | error e => simp [hact, Except.isOk, Except.toBool] at h
    | ok a => exact ⟨a, rfl⟩

theorem perform_bind_of_ok {act : Filing ε α} {f : α → Filing ε β} {a : α}
    (h : perform act t = (.ok a, u)) : perform (act >>= f) t = perform (f a) u := by
  have hbind : perform (act >>= f) t =
      (fun x => StateT.run (ExceptT.bindCont f x.1) x.2) (perform act t) := rfl
  rw [hbind, h]
  rfl

theorem perform_bind_of_error {act : Filing ε α} {f : α → Filing ε β} {e : ε}
    (h : perform act t = (.error e, u)) : perform (act >>= f) t = (.error e, u) := by
  have hbind : perform (act >>= f) t =
      (fun x => StateT.run (ExceptT.bindCont f x.1) x.2) (perform act t) := rfl
  rw [hbind, h]
  rfl

end CodeAtlas.Filing
