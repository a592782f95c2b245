import CodeAtlas.Proofs.Path.Parent

namespace CodeAtlas.Path

/-- Whether a path stands for the same components behind a directory as by itself. -/
def IsTail (p : Path) : Prop := ∀ c ∈ p.components.head?, c ≠ .root ∧ c ≠ .current

theorem IsTail.isAbsolute {p : Path} (h : p.IsTail) : p.isAbsolute = false := by
  rw [Bool.eq_false_iff]
  intro habs
  have hroot : .root ∈ p.components.head? := by
    rw [components, habs]
    rfl
  exact (h .root hroot).1 rfl

theorem bodyComponents_false {fields : List (List Char)}
    (h : ∀ c ∈ (bodyComponents true fields).head?, c ≠ .current) :
    bodyComponents false fields = bodyComponents true fields := by
  cases fields with
  | nil => rfl
  | cons f fields =>
    have hfield : Component.ofField? false f = Component.ofField? true f := by
      unfold Component.ofField?
      split
      · rfl
      next =>
        have hhead := h .current (by simp [bodyComponents, Component.ofField?])
        exact absurd rfl hhead
      · rfl
      · rfl
    rw [bodyComponents_cons, bodyComponents_cons, hfield]

theorem IsTail.components_eq {p : Path} (h : p.IsTail) :
    p.components = bodyComponents false (Text.fields '/' p.text.toList) := by
  have hbody : p.components = bodyComponents true (Text.fields '/' p.text.toList) := by
    rw [components, h.isAbsolute]
    rfl
  rw [hbody, bodyComponents_false]
  intro c hc
  rw [← hbody] at hc
  exact (h c hc).2

theorem isAbsolute_append {p : Path} (h : p.text ≠ "") (s : String) :
    (Path.mk (p.text ++ s)).isAbsolute = p.isAbsolute := by
  obtain ⟨c, cs, hp⟩ := List.exists_cons_of_ne_nil (String.toList_eq_nil_iff.not.2 h)
  simp [isAbsolute, hp]

theorem components_eq_bodyComponents (p : Path) :
    p.components = (if p.isAbsolute then [.root] else []) ++
      bodyComponents (!p.isAbsolute) (Text.fields '/' p.text.toList) := by
  rw [components_eq, backward, List.reverse_reverse]

theorem exists_text_join {p q : Path} (hp : p.text ≠ "") (hq : q.isAbsolute = false) :
    ∃ s, p.join q = ⟨p.text ++ s⟩ ∧ ∃ cs, Text.fields '/' (p.text ++ s).toList =
        Text.fields '/' cs ++ Text.fields '/' q.text.toList ∧
      ∀ isFirst, bodyComponents isFirst (Text.fields '/' p.text.toList) =
        bodyComponents isFirst (Text.fields '/' cs) := by
  rw [join, hq, if_neg (by simp), String.isEmpty_eq_false_iff.2 hp, Bool.false_or]
  split
  next hslash =>
    obtain ⟨cs, hcs⟩ := List.getLast?_eq_some_iff.1 (of_decide_eq_true hslash)
    refine ⟨q.text, rfl, cs, ?_, fun isFirst => ?_⟩
    · rw [String.toList_append, hcs, List.append_assoc, List.singleton_append,
        Text.fields_append_sep]
    · -- The slash at the end leaves an empty field, which stands for no component.
      rw [hcs, Text.fields_append_sep, Text.fields, bodyComponents_concat]
      simp [Component.ofField?]
  · refine ⟨"/" ++ q.text, by rw [String.append_assoc], p.text.toList, ?_, fun _ => rfl⟩
    rw [← Text.fields_append_sep]
    simp

theorem components_join {p q : Path} (hp : p.text ≠ "") (hq : q.IsTail) :
    (p.join q).components = p.components ++ q.components := by
  obtain ⟨s, hjoin, cs, hfields, hsame⟩ := exists_text_join hp hq.isAbsolute
  have hne : (Text.fields '/' cs).isEmpty = false := by simp [Text.fields_ne_nil]
  rw [hjoin, components_eq_bodyComponents, isAbsolute_append hp, hfields, bodyComponents_append,
    hne, Bool.and_false, ← hq.components_eq, components_eq_bodyComponents p, hsame,
    List.append_assoc]

end CodeAtlas.Path
