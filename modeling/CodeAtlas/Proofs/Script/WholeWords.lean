import CodeAtlas.Proofs.Script.Keywords
import CodeAtlas.Proofs.Text.LineNumbers
import CodeAtlas.Script.Mask

/-!
# Keywords that are whole words

A declaration stands at a keyword that is no part of a longer name and reads no property of an
object. The exception is a name that goes on with `$` behind the keyword: `$` ends a word of running
text, which is all that is asked there, though it is looked for before the keyword.
-/
namespace CodeAtlas.Script

/-- Whether a keyword between the texts is a name by itself and stands behind no `.` or `#`. -/
structure StandsAlone (before after : List Char) : Prop where
  starts : ∀ c ∈ before.getLast?, isNamePart c = false ∧ c ≠ '.' ∧ c ≠ '#'
  ends : ∀ c ∈ after.head?, isNamePart c = false

structure BeginsClass (before after : List Char) : Prop where
  starts : ∀ c ∈ before.getLast?, isNamePart c = false ∧ c ≠ '.' ∧ c ≠ '#'
  /-- Of all that names are made of, only `$` can stand behind it. -/
  ends : ∀ c ∈ after.head?, isNamePart c = true → c = '$'
  next : ∃ c ∈ (Text.trimStart after).head?, endsName c = false

theorem BeginsClass.standsAlone {before after : List Char} (h : BeginsClass before after)
    (hdollar : after.head? ≠ some '$') : StandsAlone before after where
  starts := h.starts
  ends := by
    intro c hc
    by_contra hpart
    obtain rfl := h.ends c hc (by simpa using hpart)
    exact hdollar hc

theorem startsInsideWord_eq_any (cs : List Char) :
    Text.startsInsideWord cs = cs.head?.any Text.isWordChar := by
  cases cs <;> rfl

/-- A line feed is nothing that is asked for before the keyword. -/
theorem any_head?_linePrefix {p : Char → Bool} (hp : p '\n' = false) (text : List Char) :
    (linePrefix [] text).head?.any p = text.getLast?.any p := by
  rcases List.eq_nil_or_concat text with rfl | ⟨text, c, rfl⟩
  · rfl
  · rw [List.concat_eq_append, linePrefix_concat, List.getLast?_concat, Option.any_some]
    split
    next hc => rw [hc, hp, List.head?_nil, Option.any_none]
    · rw [List.head?_cons, Option.any_some]

theorem any_eq_false_iff {α : Type} {p : α → Bool} {o : Option α} :
    o.any p = false ↔ ∀ a ∈ o, p a = false := by
  cases o <;> simp

theorem isNamePart_eq_false {c : Char} :
    isNamePart c = false ↔ Text.isWordChar c = false ∧ c ≠ '$' := by
  simp [isNamePart]

theorem isMemberMark_eq_false {c : Char} :
    isMemberMark c = false ↔ c ≠ '.' ∧ c ≠ '$' ∧ c ≠ '#' := by
  simp [isMemberMark, and_assoc]

theorem introducesClass_iff {before after : List Char} :
    introducesClass (linePrefix [] before) after = true ↔ BeginsClass before after := by
  have hword : Text.isWordChar '\n' = false := by decide
  have hmark : isMemberMark '\n' = false := by decide
  have hdollar : Text.isWordChar '$' = false := by decide
  simp only [introducesClass, startsInsideWord_eq_any, any_head?_linePrefix hword,
    any_head?_linePrefix hmark, Bool.and_eq_true, Bool.not_eq_true', any_eq_false_iff,
    Option.any_eq_true]
  constructor
  · rintro ⟨⟨⟨hbefore, hafter⟩, hmarks⟩, hnext⟩
    refine ⟨fun c hc => ?_, fun c hc hpart => ?_, hnext⟩
    · obtain ⟨hdot, hdollar, hsharp⟩ := isMemberMark_eq_false.1 (hmarks c hc)
      exact ⟨isNamePart_eq_false.2 ⟨hbefore c hc, hdollar⟩, hdot, hsharp⟩
    · simpa [isNamePart, hafter c hc] using hpart
  · rintro ⟨hstarts, hends, hnext⟩
    refine ⟨⟨⟨fun c hc => ?_, fun c hc => ?_⟩, fun c hc => ?_⟩, hnext⟩
    · exact (isNamePart_eq_false.1 (hstarts c hc).1).1
    · by_cases hpart : isNamePart c = true
      · rw [hends c hc hpart, hdollar]
      · exact (isNamePart_eq_false.1 (by simpa using hpart)).1
    · obtain ⟨hpart, hdot, hsharp⟩ := hstarts c hc
      exact isMemberMark_eq_false.2 ⟨hdot, (isNamePart_eq_false.1 hpart).2, hsharp⟩

theorem mem_declarationsFrom (starts : Array Nat) (offset : Nat) {line before after : List Char}
    (h : introducesClass (linePrefix line before) after = true) :
    declarationOf (Text.lineOf starts (offset + Text.byteSize before)) (linePrefix line before)
        ⟨offset + Text.byteSize before + 5, after⟩ ∈
      declarationsFrom starts offset line [] (before ++ keyword ++ after) := by
  induction before generalizing offset line with
  | nil =>
    have hhere : declarationAt? starts line ⟨offset, keyword ++ after⟩ =
        some (declarationOf (Text.lineOf starts offset) line ⟨offset + 5, after⟩) := by
      rw [declarationAt?_keyword]
      exact if_pos h
    rw [List.nil_append, keyword, List.cons_append, declarationsFrom_cons]
    exact List.mem_append_left _ (Option.mem_toList.2 hhere)
  | cons c before ih =>
    rw [List.cons_append, List.cons_append, declarationsFrom_cons, Text.byteSize_cons,
      ← Nat.add_assoc]
    exact List.mem_append_right _ (ih _ h)

/-- The declarations are those at the keywords that are taken for the beginning of a class. -/
theorem mem_declarations_iff {masked : List Char} {d : Declaration} :
    d ∈ declarations masked ↔ ∃ before after, masked = before ++ keyword ++ after ∧
      BeginsClass before after ∧ d = declarationOf (Text.lineAt masked (Text.byteSize before))
        (linePrefix [] before) ⟨Text.byteSize before + 5, after⟩ := by
  constructor
  · intro h
    obtain ⟨before, after, hmasked, hintroduces, hd⟩ := exists_keyword h
    rw [Nat.zero_add, Text.lineOf_lineStarts] at hd
    exact ⟨before, after, hmasked, introducesClass_iff.1 hintroduces, hd⟩
  · rintro ⟨before, after, rfl, hbegins, rfl⟩
    have hmem := mem_declarationsFrom (Text.lineStarts (before ++ keyword ++ after)).toArray 0
      (introducesClass_iff.2 hbegins)
    rwa [Nat.zero_add, Text.lineOf_lineStarts] at hmem

/-- The name `class$A` is taken for a keyword with a class behind it. -/
theorem not_forall_standsAlone :
    ¬ ∀ (text : List Char), ∀ d ∈ declarations (mask text), ∃ before after,
      mask text = before ++ keyword ++ after ∧ StandsAlone before after ∧
        d = declarationOf (Text.lineAt (mask text) (Text.byteSize before)) (linePrefix [] before)
          ⟨Text.byteSize before + 5, after⟩ := by
  intro h
  have hmask : mask "class$A \x7b\x7d".toList = keyword ++ "$A \x7b\x7d".toList := by decide
  have hmem : declarationOf 1 [] ⟨5, "$A \x7b\x7d".toList⟩ ∈
      declarations (mask "class$A \x7b\x7d".toList) := by decide +kernel
  obtain ⟨before, after, htext, halone, -⟩ := h _ _ hmem
  rw [hmask] at htext
  cases before with
  | nil =>
    have hafter : "$A \x7b\x7d".toList = after := List.append_cancel_left htext
    exact absurd (halone.ends '$' (by rw [← hafter]; decide)) (by decide)
  | cons c before =>
    -- The letter that the keyword begins with is not met a second time.
    have htail : keyword.tail ++ "$A \x7b\x7d".toList = before ++ keyword ++ after :=
      (List.cons_eq_cons.1 htext).2
    have hmem : 'c' ∈ keyword.tail ++ "$A \x7b\x7d".toList := by
      rw [htail]
      simp [keyword]
    exact absurd hmem (by decide)

end CodeAtlas.Script
