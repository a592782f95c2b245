import Mathlib.Data.List.Induction
import CodeAtlas.Path

namespace CodeAtlas.Path

theorem bodyComponents_cons (isFirst : Bool) (f : List Char) (fs : List (List Char)) :
    bodyComponents isFirst (f :: fs) =
      (Component.ofField? isFirst f).toList ++ bodyComponents false fs := by
  rw [bodyComponents]
  cases Component.ofField? isFirst f <;> rfl

theorem bodyComponents_append (isFirst : Bool) (fs gs : List (List Char)) :
    bodyComponents isFirst (fs ++ gs) =
      bodyComponents isFirst fs ++ bodyComponents (isFirst && fs.isEmpty) gs := by
  induction fs generalizing isFirst with
  | nil => simp [bodyComponents]
  | cons f fs ih => simp [bodyComponents_cons, ih]

theorem bodyComponents_concat (isFirst : Bool) (fs : List (List Char)) (f : List Char) :
    bodyComponents isFirst (fs ++ [f]) =
      bodyComponents isFirst fs ++ (Component.ofField? (isFirst && fs.isEmpty) f).toList := by
  rw [bodyComponents_append, bodyComponents_cons]
  simp [bodyComponents]

/-- The components that fields stand for which are given from the last to the first. -/
def backward (isAbsolute : Bool) (fields : List (List Char)) : List Component :=
  bodyComponents (!isAbsolute) fields.reverse

theorem backward_cons (isAbsolute : Bool) (f : List Char) (fs : List (List Char)) :
    backward isAbsolute (f :: fs) = backward isAbsolute fs ++
      (Component.ofField? (fs.isEmpty && !isAbsolute) f).toList := by
  rw [backward, List.reverse_cons, bodyComponents_concat, List.isEmpty_reverse, Bool.and_comm]
  rfl

theorem backward_dropVoid (isAbsolute : Bool) (fields : List (List Char)) :
    backward isAbsolute (dropVoid isAbsolute fields) = backward isAbsolute fields := by
  induction fields with
  | nil => rfl
  | cons f fs ih =>
    rw [dropVoid]
    split
    · rfl
    next hvoid =>
      rw [ih, backward_cons]
      cases h : Component.ofField? (fs.isEmpty && !isAbsolute) f with
      | none => simp
      | some c => simp [h] at hvoid

theorem dropVoid_isSuffix (isAbsolute : Bool) (fields : List (List Char)) :
    dropVoid isAbsolute fields <:+ fields := by
  induction fields with
  | nil => exact List.suffix_refl _
  | cons f fs ih =>
    rw [dropVoid]
    split
    · exact List.suffix_refl _
    · exact ih.trans (List.suffix_cons f fs)

/-- What is left begins with a field that stands for a component, the last one. -/
theorem backward_drop_one (isAbsolute : Bool) (fields : List (List Char)) :
    backward isAbsolute ((dropVoid isAbsolute fields).drop 1) =
      (backward isAbsolute fields).dropLast := by
  rw [← backward_dropVoid isAbsolute fields]
  induction fields with
  | nil => rfl
  | cons f fs ih =>
    rw [dropVoid]
    split
    next hsome =>
      obtain ⟨c, hc⟩ := Option.isSome_iff_exists.1 hsome
      rw [List.drop_one, List.tail_cons, backward_cons, hc, Option.toList_some,
        List.dropLast_concat]
    · exact ih

theorem components_eq (p : Path) :
    p.components = (if p.isAbsolute then [.root] else []) ++
      backward p.isAbsolute (Text.fields '/' p.text.toList).reverse := by
  rw [backward, List.reverse_reverse, components]
  cases p.isAbsolute <;> rfl

/-- What is left never begins with an empty field. -/
theorem dropVoid_ne_nil_cons (isAbsolute : Bool) (fields rest : List (List Char)) :
    dropVoid isAbsolute fields ≠ [] :: rest := by
  induction fields with
  | nil => simp [dropVoid]
  | cons f fs ih =>
    rw [dropVoid]
    split
    next hsome =>
      intro he
      obtain ⟨rfl, -⟩ := List.cons_eq_cons.1 he
      simp [Component.ofField?] at hsome
    · exact ih

theorem isAbsolute_iff (p : Path) : p.isAbsolute = true ↔
    (Text.fields '/' p.text.toList).head? = some [] ∧ Text.fields '/' p.text.toList ≠ [[]] := by
  rw [isAbsolute, decide_eq_true_iff]
  cases p.text.toList with
  | nil => simp [Text.fields]
  | cons c cs =>
    by_cases hc : c = '/'
    · simp [Text.fields, hc, Text.fields_ne_nil]
    · rw [Text.fields, if_neg hc]
      split <;> simp [hc]

theorem getLast?_components_of_backward_nil {p : Path}
    (h : backward p.isAbsolute (Text.fields '/' p.text.toList).reverse = []) :
    p.components.getLast? = none ∨ p.components.getLast? = some .root := by
  rw [components_eq, h]
  cases p.isAbsolute <;> simp

theorem parent?_eq_none {p : Path} : p.parent? = none ↔
    p.components.getLast? = none ∨ p.components.getLast? = some .root := by
  unfold parent?
  split
  next h => simp [h]
  next h => simp [h]
  next c hroot h =>
    have hc : c ≠ .root := fun he => hroot he
    dsimp only
    split <;> simp [h, hc]

def parentFields (p : Path) : List (List Char) :=
  dropVoid p.isAbsolute
    ((dropVoid p.isAbsolute (Text.fields '/' p.text.toList).reverse).drop 1)

section ParentFields
variable (p : Path)

theorem parent?_eq_some {p q : Path} (h : p.parent? = some q) :
    q = match p.parentFields with
      | [] => ⟨if p.isAbsolute then "/" else ""⟩
      | fs => ⟨ofFields fs.reverse⟩ := by
  unfold parent? at h
  split at h
  · simp at h
  · simp at h
  · dsimp only at h
    rw [← parentFields] at h
    cases hfields : p.parentFields with
    | nil =>
      rw [hfields] at h
      exact (Option.some.inj h).symm
    | cons f fs =>
      rw [hfields] at h
      exact (Option.some.inj h).symm

theorem backward_parentFields : backward p.isAbsolute p.parentFields =
    (backward p.isAbsolute (Text.fields '/' p.text.toList).reverse).dropLast := by
  rw [parentFields, backward_dropVoid, backward_drop_one]

theorem reverse_parentFields_isPrefix :
    p.parentFields.reverse <+: Text.fields '/' p.text.toList := by
  have hdrop := dropVoid_isSuffix p.isAbsolute (Text.fields '/' p.text.toList).reverse
  have hsuffix := (dropVoid_isSuffix p.isAbsolute _).trans ((List.drop_suffix 1 _).trans hdrop)
  simpa [parentFields] using List.reverse_prefix.2 hsuffix

theorem fields_ofFields_parentFields {p : Path} (h : p.parentFields ≠ []) :
    Text.fields '/' (ofFields p.parentFields.reverse).toList = p.parentFields.reverse := by
  rw [ofFields, String.toList_ofList]
  apply Text.fields_intercalate (by simpa using h)
  intro f hf
  exact Text.not_mem_of_mem_fields (p.reverse_parentFields_isPrefix.subset hf)

/-- The parent is absolute if the path is: their first fields are the same. -/
theorem isAbsolute_ofFields_parentFields {p : Path} (h : p.parentFields ≠ []) :
    (Path.mk (ofFields p.parentFields.reverse)).isAbsolute = p.isAbsolute := by
  have hbegins := p.reverse_parentFields_isPrefix
  have hleft : p.parentFields.reverse ≠ [[]] := by
    intro he
    exact dropVoid_ne_nil_cons _ _ [] (List.reverse_eq_cons_iff.1 he)
  have hall : Text.fields '/' p.text.toList ≠ [[]] := by
    intro he
    rw [he] at hbegins
    have hpos : 1 ≤ p.parentFields.length := List.length_pos_iff.2 h
    exact hleft (hbegins.eq_of_length_le (by simpa using hpos))
  have hhead : p.parentFields.reverse.head? = (Text.fields '/' p.text.toList).head? := by
    obtain ⟨rest, hrest⟩ := hbegins
    obtain ⟨f, fs, hf⟩ := List.exists_cons_of_ne_nil (show p.parentFields.reverse ≠ [] by simpa)
    rw [← hrest, hf, List.cons_append, List.head?_cons, List.head?_cons]
  rw [Bool.eq_iff_iff, isAbsolute_iff, isAbsolute_iff, fields_ofFields_parentFields h, hhead]
  exact and_congr_right fun _ => iff_of_true hleft hall

end ParentFields

theorem components_parent? {p q : Path} (h : p.parent? = some q) :
    q.components = p.components.dropLast := by
  have hne : backward p.isAbsolute (Text.fields '/' p.text.toList).reverse ≠ [] := by
    intro he
    rw [parent?_eq_none.2 (getLast?_components_of_backward_nil he)] at h
    simp at h
  rw [parent?_eq_some h, components_eq p, List.dropLast_append_of_ne_nil hne,
    ← backward_parentFields]
  split
  next hnil =>
    rw [hnil]
    cases p.isAbsolute <;> rfl
  next hfs =>
    rw [components_eq, isAbsolute_ofFields_parentFields hfs, fields_ofFields_parentFields hfs,
      List.reverse_reverse]

theorem exists_parent? {p : Path} {cs : List Component} {s : String}
    (h : p.components = cs ++ [.normal s]) : ∃ q, p.parent? = some q ∧ q.components = cs := by
  cases hq : p.parent? with
  | none => simp [parent?_eq_none, h] at hq
  | some q =>
    refine ⟨q, rfl, ?_⟩
    rw [components_parent? hq, h, List.dropLast_concat]

theorem parent?_congr {p q : Path} (h : p.components = q.components) :
    p.parent?.map components = q.parent?.map components := by
  have hnone : p.parent? = none ↔ q.parent? = none := by
    rw [parent?_eq_none, parent?_eq_none, h]
  cases hp : p.parent? with
  | none => rw [hnone.1 hp]
  | some a =>
    cases hq : q.parent? with
    | none => simp [hnone.2 hq] at hp
    | some b =>
      rw [Option.map_some, Option.map_some, components_parent? hp, components_parent? hq, h]

end CodeAtlas.Path
