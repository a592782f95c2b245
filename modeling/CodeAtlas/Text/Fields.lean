/-!
# Fields

`fields` cuts a text at every occurrence of a separator; joining the fields gives the text back.
-/
namespace CodeAtlas.Text

def fields (sep : Char) : List Char → List (List Char)
  | [] => [[]]
  | c :: cs =>
    if c = sep then [] :: fields sep cs
    else
      match fields sep cs with
      | [] => [[c]]
      | f :: fs => (c :: f) :: fs

theorem not_mem_of_mem_fields {sep : Char} {cs f : List Char} (h : f ∈ fields sep cs) :
    sep ∉ f := by
  induction cs generalizing f with
  | nil => simp_all [fields]
  | cons c cs ih =>
    rw [fields] at h
    split at h
    · rcases List.mem_cons.1 h with rfl | h
      · simp
      · exact ih h
    next hc =>
      split at h
      · rw [List.mem_singleton.1 h]
        simpa using Ne.symm hc
      next first rest hfields =>
        rcases List.mem_cons.1 h with rfl | h
        · have hfirst : sep ∉ first := ih (by simp [hfields])
          simp [hfirst, Ne.symm hc]
        · exact ih (by simp [hfields, h])

theorem subset_of_mem_fields {sep : Char} {cs f : List Char} (h : f ∈ fields sep cs) : f ⊆ cs := by
  induction cs generalizing f with
  | nil => simp_all [fields]
  | cons c cs ih =>
    rw [fields] at h
    split at h
    · rcases List.mem_cons.1 h with rfl | h
      · exact List.nil_subset _
      · exact List.subset_cons_of_subset c (ih h)
    · split at h
      · rw [List.mem_singleton.1 h]
        simp
      next first rest hfields =>
        rcases List.mem_cons.1 h with rfl | h
        · exact List.cons_subset_cons c (ih (by simp [hfields]))
        · exact List.subset_cons_of_subset c (ih (hfields ▸ List.mem_cons_of_mem first h))

theorem fields_of_not_mem {sep : Char} {f : List Char} (h : sep ∉ f) : fields sep f = [f] := by
  induction f with
  | nil => rfl
  | cons c f ih =>
    simp only [List.mem_cons, not_or] at h
    rw [fields, if_neg (Ne.symm h.1), ih h.2]

theorem fields_ne_nil (sep : Char) (cs : List Char) : fields sep cs ≠ [] := by
  cases cs with
  | nil => simp [fields]
  | cons c cs =>
    rw [fields]
    split
    · simp
    · split <;> simp

theorem fields_append_sep (sep : Char) (cs ds : List Char) :
    fields sep (cs ++ sep :: ds) = fields sep cs ++ fields sep ds := by
  induction cs with
  | nil => simp [fields]
  | cons c cs ih =>
    obtain ⟨f, fs, hf⟩ := List.exists_cons_of_ne_nil (fields_ne_nil sep cs)
    rw [List.cons_append, fields, fields, ih, hf]
    split <;> rfl

theorem fields_append_cons {sep : Char} {f : List Char} (h : sep ∉ f) (cs : List Char) :
    fields sep (f ++ sep :: cs) = f :: fields sep cs := by
  rw [fields_append_sep, fields_of_not_mem h, List.singleton_append]

/-- Cutting what was joined gives the parts back, unless a part contains the separator. -/
theorem fields_intercalate {sep : Char} {fs : List (List Char)} (hne : fs ≠ [])
    (h : ∀ f ∈ fs, sep ∉ f) : fields sep ([sep].intercalate fs) = fs := by
  induction fs with
  | nil => exact absurd rfl hne
  | cons f fs ih =>
    cases fs with
    | nil => simp [List.intercalate_singleton, fields_of_not_mem (h f (by simp))]
    | cons g fs =>
      rw [List.intercalate_cons_cons, List.append_assoc, List.singleton_append,
        fields_append_cons (h f (by simp)), ih (by simp) fun f hf => h f (List.mem_cons_of_mem _ hf)]

theorem intercalate_fields (sep : Char) (cs : List Char) : [sep].intercalate (fields sep cs) = cs := by
  induction cs with
  | nil => rfl
  | cons c cs ih =>
    obtain ⟨f, fs, hf⟩ := List.exists_cons_of_ne_nil (fields_ne_nil sep cs)
    rw [hf] at ih
    rw [fields, hf]
    split
    next hc =>
      rw [List.intercalate_cons_cons, ih, hc]
      rfl
    next =>
      cases fs with
      | nil => simpa [List.intercalate_singleton] using ih
      | cons g gs =>
        rw [List.intercalate_cons_cons] at ih ⊢
        simp [← ih]

/-- The text without the occurrences of `c` at either end. -/
def trimChar (c : Char) (cs : List Char) : List Char :=
  ((cs.dropWhile (· = c)).reverse.dropWhile (· = c)).reverse

theorem trimChar_eq_self {c : Char} {cs : List Char} (h : [] ∉ fields c cs) :
    trimChar c cs = cs := by
  have hfront : cs.dropWhile (· = c) = cs := by
    cases cs with
    | nil => rfl
    | cons d ds =>
      have hd : d ≠ c := by
        rintro rfl
        simp [fields] at h
      simp [hd]
  have hback : cs.reverse.dropWhile (· = c) = cs.reverse := by
    obtain rfl | ⟨ds, d, rfl⟩ := List.eq_nil_or_concat cs
    · rfl
    · have hd : d ≠ c := by
        rintro rfl
        simp [fields_append_sep, fields] at h
      simp [hd]
  simp [trimChar, hfront, hback]

end CodeAtlas.Text
