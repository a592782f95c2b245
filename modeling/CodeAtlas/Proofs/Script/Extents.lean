import CodeAtlas.Proofs.Script.Keywords
import CodeAtlas.Proofs.Script.Pairing
import CodeAtlas.Proofs.Text.LineNumbers
import CodeAtlas.Script.Classes

/-!
# Where classes end

The analysis finds the end of each class in a table of all braces of the file. This is the end that
one finds by looking for the first `{` behind the declaration and counting braces from there on,
and a declaration without such an end is the subject of the only warnings.
-/
namespace CodeAtlas.Script

/-! ### The plain scan -/

def textAfter (text : List Char) (offset : Nat) : List Char :=
  text.drop (Text.takeBytes offset text).length

/-- The end of the body behind a header: brace depth counted from the first `{` after it. -/
def bodyEnd? (text : List Char) (headerEnd : Nat) : Option Nat :=
  let rest := textAfter text headerEnd
  let gap := rest.takeWhile (· ≠ '{')
  closeFrom? (headerEnd + Text.byteSize gap) 0 (rest.dropWhile (· ≠ '{'))

def bodyFault (text : List Char) (headerEnd : Nat) : BodyError :=
  if '{' ∈ textAfter text headerEnd then .unterminated else .missing

theorem Place.IsIn.textAfter_eq {p : Place} {text : List Char} (h : p.IsIn text) :
    textAfter text p.offset = p.rest := by
  obtain ⟨before, rfl, hoffset⟩ := h
  rw [textAfter, hoffset, Text.takeBytes_byteSize, List.drop_left]

section Span
variable {gap rest : List Char}

theorem takeWhile_ne_open (h : '{' ∉ gap) :
    (gap ++ '{' :: rest).takeWhile (· ≠ '{') = gap := by
  rw [List.takeWhile_append_of_pos]
  · simp
  · intro c hc
    simp only [decide_eq_true_eq]
    rintro rfl
    exact h hc

theorem dropWhile_ne_open (h : '{' ∉ gap) :
    (gap ++ '{' :: rest).dropWhile (· ≠ '{') = '{' :: rest := by
  have hsplit := @List.takeWhile_append_dropWhile _ (· ≠ '{') (gap ++ '{' :: rest)
  rw [takeWhile_ne_open h] at hsplit
  exact List.append_cancel_left hsplit

end Span

/-! ### The table of braces gives the same -/

section Table
variable {masked : List Char}

theorem close?_eq_getElem? {o : Place} {rest : List Char} (hin : o.IsIn masked)
    (hopen : o.rest = '{' :: rest) : (matchBraces masked)[o.offset]? = o.close? := by
  obtain ⟨offset, cs⟩ := o
  obtain rfl : cs = '{' :: rest := hopen
  obtain ⟨before, rfl, hoffset⟩ := hin
  obtain rfl : offset = Text.byteSize before := hoffset
  exact matchBraces_open before rest

theorem bodyOf_eq {d : Declaration} (hin : d.header.IsIn masked) :
    bodyOf (matchBraces masked) d =
      match d.header.open? with
      | none => .error .missing
      | some o => (o.close?.map fun close => .ok ⟨d, o, close⟩).getD (.error .unterminated) := by
  unfold bodyOf
  cases ho : d.header.open? with
  | none => rfl
  | some o =>
    obtain ⟨hoin, -, rest, hrest⟩ := Place.open?_isIn hin ho
    dsimp only
    rw [close?_eq_getElem? hoin hrest]
    cases o.close? <;> rfl

theorem bodyOf_eq_ok {d : Declaration} {b : Body} (hin : d.header.IsIn masked) :
    bodyOf (matchBraces masked) d = .ok b ↔
      b.declaration = d ∧ d.header.open? = some b.opening ∧ b.opening.close? = some b.close := by
  obtain ⟨declaration, opening, close⟩ := b
  rw [bodyOf_eq hin]
  cases ho : d.header.open? with
  | none => simp
  | some o =>
    cases hc : o.close? with
    | none =>
      simp only [hc, Option.map_none, Option.getD_none, reduceCtorEq, Option.some.injEq, false_iff]
      rintro ⟨-, rfl, hclose⟩
      simp [hc] at hclose
    | some n =>
      simp only [hc, Option.map_some, Option.getD_some, Except.ok.injEq, Body.mk.injEq,
        Option.some.injEq]
      constructor
      · rintro ⟨rfl, rfl, rfl⟩
        exact ⟨rfl, rfl, hc⟩
      · rintro ⟨rfl, rfl, hclose⟩
        exact ⟨rfl, rfl, by simpa [hc] using hclose⟩

theorem bodyEnd?_eq {p : Place} (hin : p.IsIn masked) :
    bodyEnd? masked p.offset = p.open?.bind Place.close? := by
  rw [bodyEnd?, hin.textAfter_eq]
  cases ho : p.open? with
  | none =>
    have hnone : '{' ∉ p.rest := openFrom?_eq_none.1 ho
    have hdrop : p.rest.dropWhile (· ≠ '{') = [] := by
      rw [List.dropWhile_eq_nil_iff]
      intro c hc
      simp only [decide_eq_true_eq]
      rintro rfl
      exact hnone hc
    simp only [hdrop, closeFrom?, Option.bind_none]
  | some o =>
    obtain ⟨gap, rest, hrest, hgap, rfl⟩ := openFrom?_eq_some.1 ho
    simp only [hrest, takeWhile_ne_open hgap, dropWhile_ne_open hgap]
    rfl

theorem bodyFault_eq {p : Place} (hin : p.IsIn masked) :
    bodyFault masked p.offset = if p.open?.isSome then .unterminated else .missing := by
  rw [bodyFault, hin.textAfter_eq]
  cases ho : p.open? with
  | none =>
    have hnone : '{' ∉ p.rest := openFrom?_eq_none.1 ho
    simp [hnone]
  | some o =>
    obtain ⟨gap, rest, hrest, -, -⟩ := openFrom?_eq_some.1 ho
    simp [hrest]

theorem bodyOf_spec {d : Declaration} (h : d ∈ declarations masked) :
    match bodyEnd? masked d.header.offset with
    | some close => ∃ o, bodyOf (matchBraces masked) d = .ok ⟨d, o, close⟩
    | none => bodyOf (matchBraces masked) d = .error (bodyFault masked d.header.offset) := by
  have hin := header_isIn h
  rw [bodyEnd?_eq hin, bodyFault_eq hin, bodyOf_eq hin]
  cases d.header.open? with
  | none => rfl
  | some o =>
    simp only [Option.bind_some]
    cases o.close? with
    | none => rfl
    | some close => exact ⟨o, rfl⟩

end Table

/-! ### Classes and warnings -/

/--
The analysis of a text agrees with the plain scan: classes and warnings are those of the
declarations, in their order, and the table of braces holds what counting finds.
-/
structure Extents (file : Path) (text : List Char) (a : Analysis) : Prop where
  classes : a.classes.map (fun c => (c.name, c.file, c.startLine, c.endLine)) =
    (declarations (mask text)).filterMap fun d =>
      (bodyEnd? (mask text) d.header.offset).map fun close =>
        (d.name, file, d.line, Text.lineAt (mask text) close)
  warnings : a.warnings =
    (declarations (mask text)).filterMap fun d =>
      match bodyEnd? (mask text) d.header.offset with
      | some _ => none
      | none => some (.parse file d.line ((bodyFault (mask text) d.header.offset).message d.name))
  braces : ∀ before rest, mask text = before ++ '{' :: rest →
    (matchBraces (mask text))[Text.byteSize before]? =
      closeFrom? (Text.byteSize before) 0 ('{' :: rest)
  onlyBraces : ∀ offset close, (matchBraces (mask text))[offset]? = some close →
    ∃ before rest, mask text = before ++ '{' :: rest ∧ offset = Text.byteSize before

theorem analyzeText_extents (file : Path) (text : List Char) :
    Extents file text (analyzeText file text) where
  classes := by
    simp only [analyzeText, List.filterMap_map, List.map_filterMap]
    apply List.filterMap_congr
    intro d hd
    have hspec := bodyOf_spec hd
    cases hend : bodyEnd? (mask text) d.header.offset with
    | none =>
      rw [hend] at hspec
      simp only [Function.comp_apply, hspec]
      rfl
    | some close =>
      rw [hend] at hspec
      obtain ⟨o, ho⟩ := hspec
      simp only [Function.comp_apply, ho, Except.toOption, Option.map_some, Body.classInfo,
        Body.endLine, Text.lineOf_lineStarts]
  warnings := by
    simp only [analyzeText, List.filterMap_map]
    apply List.filterMap_congr
    intro d hd
    have hspec := bodyOf_spec hd
    cases hend : bodyEnd? (mask text) d.header.offset with
    | none =>
      rw [hend] at hspec
      simp only [Function.comp_apply, hspec]
    | some close =>
      rw [hend] at hspec
      obtain ⟨o, ho⟩ := hspec
      simp only [Function.comp_apply, ho]
  braces := by
    intro before rest hmask
    rw [hmask]
    exact matchBraces_open before rest
  onlyBraces := fun offset close => exists_of_matchBraces

theorem analyze_of_size_le {file : SourceFile} (h : file.text.utf8ByteSize ≤ maxScanBytes) :
    analyze file = analyzeText file.path file.text.toList := by
  simp only [analyze, if_pos h]

/-- The classes of a file that is looked at whole end where counting braces says. -/
theorem analyze_extents (file : SourceFile) (h : file.text.utf8ByteSize ≤ maxScanBytes) :
    Extents file.path file.text.toList (analyze file) := by
  rw [analyze_of_size_le h]
  exact analyzeText_extents file.path file.text.toList

def strayFile : SourceFile :=
  ⟨⟨"/a.js"⟩, .javaScript,
    "class A \x7b\n\x7d \x7d\nclass B \x7b\nif (x) \x7b\n\x7d\nclass C\nextends B"⟩

theorem extents_strayFile : strayFile.text.utf8ByteSize ≤ maxScanBytes ∧
    Extents strayFile.path strayFile.text.toList (analyze strayFile) ∧
    (analyze strayFile).classes.map (fun c => (c.name, c.file, c.startLine, c.endLine)) =
      [("A", ⟨"/a.js"⟩, 1, 2)] ∧
    (analyze strayFile).warnings =
      [.parse ⟨"/a.js"⟩ 3 (BodyError.unterminated.message "B"),
        .parse ⟨"/a.js"⟩ 6 (BodyError.missing.message "C")] := by
  have hsize : strayFile.text.utf8ByteSize ≤ maxScanBytes := by decide +kernel
  have hextents := analyze_extents strayFile hsize
  refine ⟨hsize, hextents, ?_, ?_⟩
  · rw [hextents.classes]
    decide +kernel
  · rw [hextents.warnings]
    decide +kernel

end CodeAtlas.Script
