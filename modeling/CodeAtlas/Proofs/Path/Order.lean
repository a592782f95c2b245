import Mathlib.Data.String.Basic
import CodeAtlas.Path

namespace CodeAtlas

namespace Component

instance : Std.TransCmp cmp :=
  inferInstanceAs (Std.TransCmp (compareLex (compareOn rank) (compareOn name)))

theorem cmp_eq_eq {a b : Component} : cmp a b = .eq ↔ a = b := by
  constructor
  · intro h
    rw [cmp, Ordering.then_eq_eq, compare_eq_iff_eq, compare_eq_iff_eq] at h
    obtain ⟨hrank, hname⟩ := h
    cases a <;> cases b <;> simp_all [rank, name]
  · rintro rfl
    exact Std.ReflCmp.compare_self

instance : Std.LawfulEqCmp cmp where
  eq_of_compare h := cmp_eq_eq.1 h

end Component

namespace Path

theorem cmpComponents_eq_compareLex : cmpComponents = List.compareLex Component.cmp := by
  funext as bs
  induction as generalizing bs with
  | nil => cases bs <;> rfl
  | cons a as ih =>
    cases bs with
    | nil => rfl
    | cons b bs => rw [cmpComponents, List.compareLex_cons_cons, ih]

instance : Std.TransCmp cmpComponents := by
  rw [cmpComponents_eq_compareLex]
  infer_instance

instance : Std.LawfulEqCmp cmpComponents := by
  rw [cmpComponents_eq_compareLex]
  infer_instance

theorem same_iff {p q : Path} : p.same q = true ↔ p.components = q.components := decide_eq_true_iff

end Path
end CodeAtlas
