import Mathlib.Data.List.Induction
import Mathlib.Data.List.TakeWhile
import CodeAtlas.Proofs.Text.Bytes
import CodeAtlas.Script.Declaration

/-!
# Keywords that introduce classes

A declaration is known by its keyword: the rest of the line before it and the text after it tell
the name, and the header ends inside the text after it. With more text behind a character that
belongs to no name the declarations stay what they are, unless a keyword has nothing but blanks
after it and the text that follows has more than that.
-/
namespace CodeAtlas.Script

/-! ### Places in a text -/

def Place.IsIn (p : Place) (text : List Char) : Prop :=
  ∃ before, text = before ++ p.rest ∧ p.offset = Text.byteSize before

def Place.extend (p : Place) (more : List Char) : Place := ⟨p.offset, p.rest ++ more⟩

theorem Place.IsIn.add {offset : Nat} {gap rest text : List Char}
    (h : (Place.mk offset (gap ++ rest)).IsIn text) :
    (Place.mk (offset + Text.byteSize gap) rest).IsIn text := by
  obtain ⟨before, rfl, hoffset⟩ := h
  have hoffset : offset = Text.byteSize before := hoffset
  exact ⟨before ++ gap, by simp, by simp [hoffset]⟩

theorem Place.IsIn.offset_le {p : Place} {text : List Char} (h : p.IsIn text) :
    p.offset + Text.byteSize p.rest = Text.byteSize text := by
  obtain ⟨before, rfl, hoffset⟩ := h
  rw [Text.byteSize_append, hoffset]

theorem openFrom?_eq_none {offset : Nat} {cs : List Char} :
    openFrom? offset cs = none ↔ '{' ∉ cs := by
  induction cs generalizing offset with
  | nil => simp [openFrom?]
  | cons c cs ih =>
    by_cases hc : c = '{'
    · simp [openFrom?, hc]
    · simp [openFrom?, hc, ih, Ne.symm hc]

theorem openFrom?_eq_some {offset : Nat} {cs : List Char} {p : Place} :
    openFrom? offset cs = some p ↔ ∃ gap rest, cs = gap ++ '{' :: rest ∧ '{' ∉ gap ∧
      p = ⟨offset + Text.byteSize gap, '{' :: rest⟩ := by
  induction cs generalizing offset with
  | nil => simp [openFrom?]
  | cons c cs ih =>
    rw [openFrom?]
    by_cases hc : c = '{'
    · rw [if_pos hc]
      constructor
      · rintro ⟨⟩
        exact ⟨[], cs, by simp [hc], by simp, by simp [hc]⟩
      · rintro ⟨gap, rest, he, hgap, rfl⟩
        cases gap with
        | nil => simp_all
        | cons d gap => simp_all
    · rw [if_neg hc, ih]
      constructor
      · rintro ⟨gap, rest, rfl, hgap, rfl⟩
        exact ⟨c :: gap, rest, rfl, by simp [Ne.symm hc, hgap], by simp [Nat.add_assoc]⟩
      · rintro ⟨gap, rest, he, hgap, rfl⟩
        cases gap with
        | nil => simp_all
        | cons d gap =>
          obtain ⟨rfl, rfl⟩ := List.cons_eq_cons.1 he
          exact ⟨gap, rest, rfl, by simp_all, by simp [Nat.add_assoc]⟩

theorem Place.open?_isIn {p o : Place} {text : List Char} (hp : p.IsIn text)
    (h : p.open? = some o) : o.IsIn text ∧ p.offset ≤ o.offset ∧ ∃ rest, o.rest = '{' :: rest := by
  obtain ⟨gap, rest, he, -, rfl⟩ := openFrom?_eq_some.1 h
  have hgap : (Place.mk p.offset (gap ++ '{' :: rest)).IsIn text := by
    rw [← he]
    exact hp
  exact ⟨hgap.add, Nat.le_add_right _ _, rest, rfl⟩

theorem Place.open?_extend {p o : Place} (h : p.open? = some o) (more : List Char) :
    (p.extend more).open? = some (o.extend more) := by
  obtain ⟨gap, rest, he, hgap, rfl⟩ := openFrom?_eq_some.1 h
  refine openFrom?_eq_some.2 ⟨gap, rest ++ more, ?_, hgap, rfl⟩
  simp [Place.extend, he]

/-! ### Names -/

theorem blanks?_eq_some {cs rest : List Char} (h : blanks? cs = some rest) :
    rest = cs.dropWhile Text.isBlank := by
  cases cs with
  | nil => simp [blanks?] at h
  | cons c cs =>
    simp only [blanks?, Option.ite_none_right_eq_some, Option.some.injEq] at h
    obtain ⟨hc, rfl⟩ := h
    simp [hc]

theorem name?_eq_some {cs word rest : List Char} (h : name? cs = some (word, rest)) :
    cs = word ++ rest := by
  cases cs with
  | nil => simp [name?] at h
  | cons c cs =>
    simp only [name?, Option.ite_none_right_eq_some, Option.some.injEq, Prod.mk.injEq] at h
    obtain ⟨-, rfl, rfl⟩ := h
    simp

theorem isNamePart_of_isNameStart {c : Char} (h : isNameStart c = true) : isNamePart c = true := by
  simp only [isNameStart, Bool.or_eq_true, decide_eq_true_eq] at h
  rcases h with (h | rfl) | rfl
  · have hword : Text.isWordChar c = true :=
      Text.isWordChar_of_isAlphanum (by simp [Char.isAlphanum, h])
    simp [isNamePart, hword]
  · decide
  · decide

section Spans
variable {α : Type} {p : α → Bool} {xs : List α}

theorem takeWhile_append_of_exists (h : ∃ x ∈ xs, p x = false) (ys : List α) :
    (xs ++ ys).takeWhile p = xs.takeWhile p := by
  induction xs with
  | nil => simp at h
  | cons x xs ih =>
    by_cases hx : p x = true
    · have hrest : ∃ x ∈ xs, p x = false := by
        obtain ⟨y, hy, hpy⟩ := h
        rcases List.mem_cons.1 hy with rfl | hy
        · simp [hx] at hpy
        · exact ⟨y, hy, hpy⟩
      simp [hx, ih hrest]
    · simp [hx]

theorem dropWhile_append_of_exists (h : ∃ x ∈ xs, p x = false) (ys : List α) :
    (xs ++ ys).dropWhile p = xs.dropWhile p ++ ys := by
  have hlist : (xs ++ ys).takeWhile p ++ (xs ++ ys).dropWhile p =
      xs.takeWhile p ++ (xs.dropWhile p ++ ys) := by
    rw [List.takeWhile_append_dropWhile, ← List.append_assoc, List.takeWhile_append_dropWhile]
  rw [takeWhile_append_of_exists h] at hlist
  exact List.append_cancel_left hlist

theorem dropWhile_ne_nil (h : ∃ x ∈ xs, p x = false) : xs.dropWhile p ≠ [] := by
  intro he
  obtain ⟨x, hx, hp⟩ := h
  rw [List.dropWhile_eq_nil_iff] at he
  simp [he x hx] at hp

theorem getLast?_dropWhile (h : ∃ x ∈ xs, p x = false) :
    (xs.dropWhile p).getLast? = xs.getLast? := by
  have hsplit := congrArg List.getLast? (@List.takeWhile_append_dropWhile α p xs)
  rw [List.getLast?_append] at hsplit
  cases he : xs.dropWhile p with
  | nil => exact absurd he (dropWhile_ne_nil h)
  | cons y ys =>
    rw [he] at hsplit
    simpa [List.getLast?_cons] using hsplit

end Spans

theorem blanks?_append {cs : List Char} (h : ∃ c ∈ cs, Text.isBlank c = false)
    (more : List Char) : blanks? (cs ++ more) = (blanks? cs).map (· ++ more) := by
  cases cs with
  | nil => simp at h
  | cons c cs =>
    simp only [List.cons_append, blanks?]
    by_cases hc : Text.isBlank c = true
    · have hrest : ∃ c ∈ cs, Text.isBlank c = false := by
        obtain ⟨d, hd, hblank⟩ := h
        rcases List.mem_cons.1 hd with rfl | hd
        · simp [hc] at hblank
        · exact ⟨d, hd, hblank⟩
      simp [hc, dropWhile_append_of_exists hrest]
    · simp [hc]

theorem name?_append {cs : List Char} (h : ∃ c ∈ cs, isNamePart c = false) (more : List Char) :
    name? (cs ++ more) = (name? cs).map fun w => (w.1, w.2 ++ more) := by
  cases cs with
  | nil => simp at h
  | cons c cs =>
    simp only [List.cons_append, name?]
    by_cases hc : isNameStart c = true
    · have hrest : ∃ c ∈ cs, isNamePart c = false := by
        obtain ⟨d, hd, hpart⟩ := h
        rcases List.mem_cons.1 hd with rfl | hd
        · simp [isNamePart_of_isNameStart hc] at hpart
        · exact ⟨d, hd, hpart⟩
      simp [hc, takeWhile_append_of_exists hrest, dropWhile_append_of_exists hrest]
    · simp [hc]

/-! ### Declarations -/

def keyword : List Char := ['c', 'l', 'a', 's', 's']

def declarationOf (line : Nat) (before : List Char) (keywordEnd : Place) : Declaration :=
  let declared := declaredName? keywordEnd
  let name :=
    match assignedName? before, declared with
    | some name, _ => String.ofList name
    | none, some (name, _) => String.ofList name
    | none, none => "anonymous_L" ++ toString line
  ⟨name, line, (declared.map (·.2)).getD keywordEnd⟩

@[simp]
theorem line_declarationOf (line : Nat) (before : List Char) (keywordEnd : Place) :
    (declarationOf line before keywordEnd).line = line := rfl

section At
variable (starts : Array Nat) (before : List Char)

theorem declarationAt?_keyword (offset : Nat) (rest : List Char) :
    declarationAt? starts before ⟨offset, keyword ++ rest⟩ =
      if introducesClass before rest then
        some (declarationOf (Text.lineOf starts offset) before ⟨offset + 5, rest⟩)
      else none := rfl

theorem declarationAt?_of_not_keyword {place : Place} (h : ¬ keyword <+: place.rest) :
    declarationAt? starts before place = none := by
  unfold declarationAt?
  split
  next rest he => exact absurd ⟨rest, he.symm⟩ h
  · rfl

end At

theorem declaredName?_isIn {after place : Place} {word text : List Char}
    (h : declaredName? after = some (word, place)) (hin : after.IsIn text) :
    place.IsIn text ∧ after.offset ≤ place.offset := by
  unfold declaredName? at h
  split at h
  · simp at h
  next rest hblanks =>
    split at h
    · simp at h
    next w r hname =>
      simp only [Option.ite_none_left_eq_some, Option.some.injEq, Prod.mk.injEq] at h
      obtain ⟨-, rfl, rfl⟩ := h
      have hrest : after.rest = (after.rest.takeWhile Text.isBlank ++ w) ++ r := by
        rw [List.append_assoc, ← name?_eq_some hname, blanks?_eq_some hblanks,
          List.takeWhile_append_dropWhile]
      have hgap : (Place.mk after.offset
          ((after.rest.takeWhile Text.isBlank ++ w) ++ r)).IsIn text := by
        rw [← hrest]
        exact hin
      have hplace := hgap.add
      rw [Text.byteSize_append, ← Nat.add_assoc] at hplace
      exact ⟨hplace, by simp only; omega⟩

theorem header_declarationOf {line : Nat} {before text : List Char} {after : Place}
    (hin : after.IsIn text) : (declarationOf line before after).header.IsIn text ∧
      after.offset ≤ (declarationOf line before after).header.offset := by
  simp only [declarationOf]
  cases h : declaredName? after with
  | none => exact ⟨hin, Nat.le_refl _⟩
  | some declared => exact declaredName?_isIn h hin

/-- The line up to a place, reversed: `before` when the text begins, and then what follows. -/
def linePrefix (before text : List Char) : List Char :=
  text.foldl (fun before c => if c = '\n' then [] else c :: before) before

theorem linePrefix_cons (before : List Char) (c : Char) (text : List Char) :
    linePrefix before (c :: text) = linePrefix (if c = '\n' then [] else c :: before) text := rfl

theorem linePrefix_concat (before text : List Char) (c : Char) :
    linePrefix before (text ++ [c]) = if c = '\n' then [] else c :: linePrefix before text := by
  simp [linePrefix, List.foldl_append]

/-- At the beginning of a line the text before it ends in no word either. -/
theorem startsInsideWord_linePrefix (text : List Char) :
    Text.startsInsideWord (linePrefix [] text) = Text.startsInsideWord text.reverse := by
  rcases List.eq_nil_or_concat text with rfl | ⟨text, c, rfl⟩
  · rfl
  · rw [List.concat_eq_append, linePrefix_concat, List.reverse_append, List.reverse_singleton,
      List.singleton_append]
    split
    next hc =>
      subst hc
      have hword : Text.isWordChar '\n' = false := by decide
      exact hword.symm
    · rfl

theorem declarationsFrom_eq (starts : Array Nat) (offset : Nat) (before : List Char)
    (out : List Declaration) (cs : List Char) :
    declarationsFrom starts offset before out cs =
      out.reverse ++ declarationsFrom starts offset before [] cs := by
  induction cs generalizing offset before out with
  | nil => simp [declarationsFrom]
  | cons c cs ih =>
    simp only [declarationsFrom]
    cases declarationAt? starts before ⟨offset, c :: cs⟩ with
    | none => exact ih ..
    | some d =>
      dsimp only
      rw [ih, ih _ _ [d]]
      simp

theorem declarationsFrom_cons (starts : Array Nat) (offset : Nat) (before : List Char) (c : Char)
    (cs : List Char) : declarationsFrom starts offset before [] (c :: cs) =
      (declarationAt? starts before ⟨offset, c :: cs⟩).toList ++
        declarationsFrom starts (offset + c.utf8Size) (if c = '\n' then [] else c :: before) [] cs := by
  simp only [declarationsFrom]
  rw [declarationsFrom_eq]
  cases declarationAt? starts before ⟨offset, c :: cs⟩ <;> simp

/-- A declaration stands at a keyword that introduces a class. -/
theorem exists_keyword {starts : Array Nat} {offset : Nat} {before cs : List Char}
    {d : Declaration} (h : d ∈ declarationsFrom starts offset before [] cs) :
    ∃ pre rest, cs = pre ++ keyword ++ rest ∧ introducesClass (linePrefix before pre) rest = true ∧
      d = declarationOf (Text.lineOf starts (offset + Text.byteSize pre)) (linePrefix before pre)
        ⟨offset + Text.byteSize pre + 5, rest⟩ := by
  induction cs generalizing offset before with
  | nil => simp [declarationsFrom] at h
  | cons c cs ih =>
    rw [declarationsFrom_cons] at h
    rcases List.mem_append.1 h with h | h
    · have h : declarationAt? starts before ⟨offset, c :: cs⟩ = some d := by simpa using h
      by_cases hk : keyword <+: c :: cs
      · obtain ⟨rest, hrest⟩ := hk
        rw [← hrest, declarationAt?_keyword, Option.ite_none_right_eq_some] at h
        exact ⟨[], rest, hrest.symm, h.1, (Option.some.inj h.2).symm⟩
      · rw [declarationAt?_of_not_keyword _ _ hk] at h
        simp at h
    · obtain ⟨pre, rest, rfl, hintro, rfl⟩ := ih h
      refine ⟨c :: pre, rest, rfl, hintro, ?_⟩
      rw [Text.byteSize_cons, linePrefix_cons, ← Nat.add_assoc]

theorem byteSize_keyword : Text.byteSize keyword = 5 := by decide

/-- The header of a declaration is in the text, from its keyword on. -/
theorem header_isIn {masked : List Char} {d : Declaration} (h : d ∈ declarations masked) :
    d.header.IsIn masked := by
  obtain ⟨pre, rest, rfl, -, rfl⟩ := exists_keyword h
  refine (header_declarationOf ⟨pre ++ keyword, rfl, ?_⟩).1
  rw [Text.byteSize_append, byteSize_keyword, Nat.zero_add]

/-! ### More text -/

/-- Whether no keyword of the text has nothing but blanks after it. -/
def NoneDangling (text : List Char) : Prop :=
  ∀ before rest, text = before ++ keyword ++ rest → Text.startsInsideWord before.reverse = false →
    Text.startsInsideWord rest = false → Text.allBlank rest = false

instance (text : List Char) : Decidable (NoneDangling text) :=
  decidable_of_iff (∀ i < text.length + 1, keyword.isPrefixOf (text.drop i) = true →
    Text.startsInsideWord (text.take i).reverse = false →
    Text.startsInsideWord (text.drop (i + 5)) = false →
    Text.allBlank (text.drop (i + 5)) = false) <| by
  constructor
  · rintro h before rest rfl
    have hi := h before.length (by simp only [List.length_append]; omega)
    have hdrop : (before ++ keyword ++ rest).drop (before.length + 5) = rest :=
      List.drop_left' (by simp [keyword])
    rw [hdrop, List.append_assoc, List.drop_left, List.take_left] at hi
    exact hi (List.isPrefixOf_iff_prefix.2 (List.prefix_append keyword rest))
  · intro h i _ hprefix
    obtain ⟨rest, hrest⟩ := List.isPrefixOf_iff_prefix.1 hprefix
    have hsplit : text = text.take i ++ keyword ++ rest := by
      rw [List.append_assoc, hrest, List.take_append_drop]
    have hdrop : text.drop (i + 5) = rest := by
      rw [← List.drop_drop, ← hrest]
      rfl
    rw [hdrop]
    exact h _ _ hsplit

def Declaration.extend (d : Declaration) (more : List Char) : Declaration :=
  { d with header := d.header.extend more }

theorem exists_not_blank {cs : List Char} (h : Text.allBlank cs = false) :
    ∃ c ∈ cs, Text.isBlank c = false := by
  simpa [Text.allBlank] using h

def EndsNoName (cs : List Char) : Prop := ∃ c ∈ cs.getLast?, isNamePart c = false

theorem EndsNoName.of_newline {cs : List Char} (h : cs.getLast? = some '\n') : EndsNoName cs :=
  ⟨'\n', h, by decide⟩

theorem EndsNoName.exists_mem {cs : List Char} (h : EndsNoName cs) :
    ∃ c ∈ cs, isNamePart c = false := by
  obtain ⟨c, hc, hpart⟩ := h
  exact ⟨c, List.mem_of_getLast? hc, hpart⟩

theorem EndsNoName.of_append {cs ds : List Char} (h : EndsNoName (cs ++ ds)) (hne : ds ≠ []) :
    EndsNoName ds := by
  have hlast : (cs ++ ds).getLast? = ds.getLast? := by
    rw [List.getLast?_append, List.getLast?_eq_some_getLast hne, Option.some_or]
  rwa [EndsNoName, hlast] at h

theorem declaredName?_extend {after : Place} (hlast : EndsNoName after.rest)
    (hblank : Text.allBlank after.rest = false) (more : List Char) :
    declaredName? (after.extend more) =
      (declaredName? after).map fun w => (w.1, w.2.extend more) := by
  have hsome := exists_not_blank hblank
  unfold declaredName?
  simp only [Place.extend]
  rw [blanks?_append hsome, takeWhile_append_of_exists hsome]
  cases hb : blanks? after.rest with
  | none => rfl
  | some rest =>
    have hrest : EndsNoName rest := by
      rwa [EndsNoName, blanks?_eq_some hb, getLast?_dropWhile hsome]
    dsimp only [Option.map_some]
    rw [name?_append hrest.exists_mem]
    cases name? rest with
    | none => rfl
    | some w =>
      dsimp only [Option.map_some]
      split <;> rfl

theorem declarationOf_extend {line : Nat} {before : List Char} {after : Place}
    (hlast : EndsNoName after.rest) (hblank : Text.allBlank after.rest = false)
    (more : List Char) :
    declarationOf line before (after.extend more) = (declarationOf line before after).extend more := by
  simp only [declarationOf, declaredName?_extend hlast hblank]
  cases assignedName? before <;> cases declaredName? after <;> rfl

theorem introducesClass_append {before rest : List Char} (hblank : Text.allBlank rest = false)
    (more : List Char) : introducesClass before (rest ++ more) = introducesClass before rest := by
  have hsome := exists_not_blank hblank
  have hword : Text.startsInsideWord (rest ++ more) = Text.startsInsideWord rest := by
    cases rest with
    | nil => simp at hsome
    | cons c rest => rfl
  have htrim : (Text.trimStart (rest ++ more)).head? = (Text.trimStart rest).head? := by
    rw [Text.trimStart, Text.trimStart, dropWhile_append_of_exists hsome]
    cases h : rest.dropWhile Text.isBlank with
    | nil => exact absurd h (dropWhile_ne_nil hsome)
    | cons c cs => rfl
  rw [introducesClass, introducesClass, hword, htrim]

/-- Before nothing but blanks a keyword introduces no class. -/
theorem introducesClass_of_allBlank {before rest : List Char} (h : Text.allBlank rest = true) :
    introducesClass before rest = false := by
  have htrim : Text.trimStart rest = [] := List.dropWhile_eq_nil_iff.2 (List.all_eq_true.1 h)
  simp [introducesClass, htrim]

theorem introducesClass_of_inWord {before rest : List Char}
    (h : ¬ (Text.startsInsideWord before = false ∧ Text.startsInsideWord rest = false)) :
    introducesClass before rest = false := by
  rw [introducesClass]
  cases hbefore : Text.startsInsideWord before with
  | true => rfl
  | false =>
    cases hrest : Text.startsInsideWord rest with
    | true => simp
    | false => exact absurd ⟨hbefore, hrest⟩ h

theorem isNamePart_keyword : ∀ c ∈ keyword, isNamePart c = true := by
  intro c hc
  have hletters : keyword.all Char.isAlphanum = true := rfl
  simp [isNamePart, Text.isWordChar_of_isAlphanum (List.all_eq_true.1 hletters c hc)]

/-- All of the keyword belongs to a name, so it does not go beyond a character that does not. -/
theorem not_keyword_append {cs : List Char} (hstop : ∃ c ∈ cs, isNamePart c = false)
    (h : ¬ keyword <+: cs) (more : List Char) : ¬ keyword <+: cs ++ more := by
  intro hmore
  rcases List.prefix_or_prefix_of_prefix hmore (List.prefix_append cs more) with hk | hk
  · exact h hk
  · obtain ⟨c, hc, hpart⟩ := hstop
    simp [isNamePart_keyword c (hk.subset hc)] at hpart

/-- What is found at a place is found there too when the text goes on where no name ends. -/
theorem declarationAt?_extend {starts starts' : Array Nat} {before more : List Char}
    {place : Place} (hlast : EndsNoName place.rest)
    (hline : Text.lineOf starts' place.offset = Text.lineOf starts place.offset)
    (hdangling : ∀ rest, place.rest = keyword ++ rest → Text.startsInsideWord before = false →
      Text.startsInsideWord rest = false → Text.allBlank rest = false ∨
        Text.allBlank (rest ++ more) = true) :
    declarationAt? starts' before (place.extend more) =
      (declarationAt? starts before place).map (·.extend more) := by
  obtain ⟨offset, cs⟩ := place
  by_cases hk : keyword <+: cs
  · obtain ⟨rest, rfl⟩ := hk
    have hne : rest ≠ [] := by
      rintro rfl
      obtain ⟨c, hc, hpart⟩ := hlast.exists_mem
      simp [isNamePart_keyword c (by simpa using hc)] at hpart
    have hextend : (Place.mk offset (keyword ++ rest)).extend more =
        ⟨offset, keyword ++ (rest ++ more)⟩ := by simp [Place.extend]
    rw [hextend, declarationAt?_keyword, declarationAt?_keyword]
    -- If the keyword is part of a word it introduces no class, whatever follows.
    by_cases hword : Text.startsInsideWord before = false ∧ Text.startsInsideWord rest = false
    · rcases hdangling rest rfl hword.1 hword.2 with hblank | hblank
      · rw [introducesClass_append hblank]
        split
        · have hof := @declarationOf_extend (Text.lineOf starts offset) before ⟨offset + 5, rest⟩
            (EndsNoName.of_append hlast hne) hblank more
          have hline : Text.lineOf starts' offset = Text.lineOf starts offset := hline
          rw [hline, Option.map_some, ← hof]
          rfl
        · rfl
      · have hrest : Text.allBlank rest = true := by
          simp only [Text.allBlank, List.all_append, Bool.and_eq_true] at hblank
          exact hblank.1
        rw [introducesClass_of_allBlank hblank, introducesClass_of_allBlank hrest]
        rfl
    · have hsame : Text.startsInsideWord (rest ++ more) = Text.startsInsideWord rest := by
        cases rest with
        | nil => exact absurd rfl hne
        | cons c rest => rfl
      have hword' := hword
      rw [← hsame] at hword'
      rw [introducesClass_of_inWord hword, introducesClass_of_inWord hword']
      rfl
  · have hnone := @declarationAt?_of_not_keyword starts before ⟨offset, cs⟩ hk
    have hnone' := @declarationAt?_of_not_keyword starts' before
      ((Place.mk offset cs).extend more) (not_keyword_append hlast.exists_mem hk more)
    rw [hnone, hnone', Option.map_none]

/-- Where no name ends the declarations go on with those of what follows. -/
theorem declarationsFrom_append {starts starts' : Array Nat} {text more : List Char}
    (hlast : EndsNoName text)
    (hline : ∀ n ≤ Text.byteSize text, Text.lineOf starts' n = Text.lineOf starts n)
    (hdangling : NoneDangling text ∨ Text.allBlank more = true) {before cs : List Char}
    (htext : text = before ++ cs) :
    declarationsFrom starts' (Text.byteSize before) (linePrefix [] before) [] (cs ++ more) =
      (declarationsFrom starts (Text.byteSize before) (linePrefix [] before) [] cs).map
          (·.extend more) ++
        declarationsFrom starts' (Text.byteSize text) (linePrefix [] text) [] more := by
  induction cs generalizing before with
  | nil => simp [htext, declarationsFrom]
  | cons c cs ih =>
    have hstep := @ih (before ++ [c]) (by simp [htext])
    rw [linePrefix_concat, Text.byteSize_append, Text.byteSize_cons, Text.byteSize_nil,
      Nat.add_zero] at hstep
    have hhere : declarationAt? starts' (linePrefix [] before)
        ((Place.mk (Text.byteSize before) (c :: cs)).extend more) =
        (declarationAt? starts (linePrefix [] before) ⟨Text.byteSize before, c :: cs⟩).map
          (·.extend more) := by
      apply declarationAt?_extend
      · rw [htext] at hlast
        exact hlast.of_append (List.cons_ne_nil c cs)
      · apply hline
        rw [htext, Text.byteSize_append]
        exact Nat.le_add_right _ _
      · intro rest hrest hbefore hafter
        have hrest : c :: cs = keyword ++ rest := hrest
        rw [startsInsideWord_linePrefix] at hbefore
        rcases hdangling with hdangling | hblank
        · exact Or.inl
            (hdangling before rest (by rw [htext, hrest, List.append_assoc]) hbefore hafter)
        · cases hall : Text.allBlank rest with
          | false => exact Or.inl rfl
          | true =>
            refine Or.inr ?_
            simp only [Text.allBlank] at hall hblank
            simp [Text.allBlank, hall, hblank]
    rw [List.cons_append, declarationsFrom_cons, declarationsFrom_cons, hstep, List.map_append,
      List.append_assoc]
    congr 1
    simp only [Place.extend, List.cons_append] at hhere
    rw [hhere]
    cases declarationAt? starts (linePrefix [] before) ⟨Text.byteSize before, c :: cs⟩ <;> rfl

end CodeAtlas.Script
