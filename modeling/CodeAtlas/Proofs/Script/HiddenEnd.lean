import CodeAtlas.Proofs.Script.Appending
import CodeAtlas.Proofs.Script.HiddenRest

/-!
# The analysis of hidden text

A text that ends in blanks has the declarations, bodies and classes that it has without them. So
where masking ends in a comment or template, the analysis is that of the text up to the mark that
begins it: what stands behind the mark adds no class and no warning.
-/
namespace CodeAtlas.Script

/-! ### Blanks behind a masked text -/

theorem eq_of_mem_blanks {cs : List Char} {d : Char} (h : d ∈ blanks cs) : d = ' ' ∨ d = '\n' := by
  obtain ⟨c, -, hd⟩ := List.mem_flatMap.1 h
  unfold blank at hd
  split at hd
  · exact Or.inr (List.mem_singleton.1 hd)
  · exact Or.inl (List.eq_of_mem_replicate hd)

theorem not_mem_blanks {d : Char} (hd : IsInk d) (cs : List Char) : d ∉ blanks cs := fun h =>
  (eq_of_mem_blanks h).elim hd.1 hd.2

theorem allBlank_blanks (cs : List Char) : Text.allBlank (blanks cs) = true := by
  refine List.all_eq_true.2 fun d hd => ?_
  rcases eq_of_mem_blanks hd with rfl | rfl <;> decide

section Blanks
variable {masked : List Char} {d : Declaration}

theorem declarations_append_blanks (hlast : EndsNoName masked) (cs : List Char) :
    declarations (masked ++ blanks cs) = (declarations masked).map (·.extend (blanks cs)) := by
  rw [declarations_append hlast (Or.inr (allBlank_blanks cs)), List.append_right_eq_self,
    List.eq_nil_iff_forall_not_mem]
  intro d hd
  obtain ⟨pre, rest, he, -, -⟩ := exists_keyword hd
  have hmem : 'c' ∈ blanks cs := by simp [he, keyword]
  exact not_mem_blanks (by simp [IsInk]) cs hmem

theorem Place.open?_append_blanks (p : Place) (cs : List Char) :
    (p.extend (blanks cs)).open? = p.open?.map (·.extend (blanks cs)) := by
  cases h : p.open? with
  | none =>
    have hnone : '{' ∉ p.rest := openFrom?_eq_none.1 h
    refine openFrom?_eq_none.2 fun hmem => ?_
    rcases List.mem_append.1 hmem with hmem | hmem
    · exact hnone hmem
    · exact not_mem_blanks (by simp [IsInk]) cs hmem
  | some o => exact Place.open?_extend h _

theorem Place.close?_append_blanks {o : Place} {rest : List Char} (h : o.rest = '{' :: rest)
    (cs : List Char) : (o.extend (blanks cs)).close? = o.close? := by
  have hclose : '}' ∉ blanks cs := not_mem_blanks (by simp [IsInk]) cs
  simp only [Place.close?, Place.extend, h, List.cons_append, closeFrom?_open,
    closeFrom?_append_of_not_mem hclose]

/-- A declaration has the body or the lack of one that it has without the blanks. -/
theorem bodyOf_append_blanks (hin : d.header.IsIn masked) (cs : List Char) :
    bodyOf (matchBraces (masked ++ blanks cs)) (d.extend (blanks cs)) =
      (bodyOf (matchBraces masked) d).map (·.extend (blanks cs)) := by
  have hin' : (d.extend (blanks cs)).header.IsIn (masked ++ blanks cs) := hin.extend _
  have hopen : (d.extend (blanks cs)).header.open? =
      d.header.open?.map (·.extend (blanks cs)) := d.header.open?_append_blanks cs
  rw [bodyOf_eq hin, bodyOf_eq hin', hopen]
  cases ho : d.header.open? with
  | none => rfl
  | some o =>
    obtain ⟨-, -, rest, hrest⟩ := Place.open?_isIn hin ho
    simp only [Option.map_some, Place.close?_append_blanks hrest]
    cases o.close? <;> rfl

theorem bodiesOf_append_blanks (hlast : EndsNoName masked) (cs : List Char) :
    bodiesOf (masked ++ blanks cs) = (bodiesOf masked).map (·.extend (blanks cs)) := by
  rw [bodiesOf, bodiesOf, declarations_append_blanks hlast, List.filterMap_map, List.map_filterMap]
  apply List.filterMap_congr
  intro d hd
  rw [Function.comp_apply, bodyOf_append_blanks (header_isIn hd)]
  cases bodyOf (matchBraces masked) d <;> rfl

end Blanks

/-! ### The analysis of hidden text -/

theorem warnings_analyzeText (file : Path) (text : List Char) :
    (analyzeText file text).warnings = (declarations (mask text)).filterMap fun d =>
      match bodyOf (matchBraces (mask text)) d with
      | .ok _ => none
      | .error e => some (.parse file d.line (e.message d.name)) := by
  simp only [analyzeText, List.filterMap_map]
  rfl

/-- Text that is hidden whole adds nothing to what is found in the text before it. -/
theorem analyzeText_append_hidden {s t : List Char} (hlast : EndsNoName (mask s))
    (hmask : mask (s ++ t) = mask s ++ blanks t) (file : Path) :
    analyzeText file (s ++ t) = analyzeText file s := by
  have hclasses : (analyzeText file (s ++ t)).classes = (analyzeText file s).classes := by
    have hbodies := bodiesOf_append_blanks hlast t
    rw [← hmask] at hbodies
    rw [classes_analyzeText, classes_analyzeText, hbodies, List.map_map]
    apply List.map_congr_left
    intro b hb
    have hinfo := @classInfo_extend s t (blanks t) hmask file [] b hb (by simp)
    rwa [List.append_nil] at hinfo
  have hwarnings : (analyzeText file (s ++ t)).warnings = (analyzeText file s).warnings := by
    rw [warnings_analyzeText, warnings_analyzeText, hmask, declarations_append_blanks hlast,
      List.filterMap_map]
    apply List.filterMap_congr
    intro d hd
    rw [Function.comp_apply, bodyOf_append_blanks (header_isIn hd)]
    cases bodyOf (matchBraces (mask s)) d <;> rfl
  cases ha : analyzeText file (s ++ t)
  cases hb : analyzeText file s
  simp_all

theorem EndsNoName.mask {text : List Char} (h : EndsNoName text) : EndsNoName (mask text) := by
  obtain ⟨c, hlast, hpart⟩ := h
  obtain ⟨hidden, he⟩ := (veiled_mask text).exists_getLast? hlast
  have hshown : EndsNoName (shown hidden c) := by
    cases hidden with
    | false => exact ⟨c, rfl, hpart⟩
    | true =>
      by_cases hc : c = '\n'
      · exact ⟨'\n', by simp [shown, blank, hc], by decide⟩
      · have hpos : c.utf8Size ≠ 0 := Nat.ne_of_gt c.utf8Size_pos
        exact ⟨' ', by simp [shown, blank, hc, List.getLast?_replicate, hpos], by decide⟩
  rwa [EndsNoName, he]

theorem HiddenRest.analyzeText_eq {text seen mark hidden : List Char}
    (h : HiddenRest [.code] text seen mark hidden) (file : Path) :
    analyzeText file text = analyzeText file (seen ++ mark) := by
  have hlast : EndsNoName (seen ++ mark) := by
    rcases h.opens with ⟨rfl, -⟩ | ⟨rfl, -⟩
    · exact ⟨'*', by simp, by decide⟩
    · exact ⟨'\x60', by simp, by decide⟩
  have hmask : mask (seen ++ mark ++ hidden) = mask (seen ++ mark) ++ blanks hidden := by
    rw [← h.text_eq]
    exact h.scan_eq
  rw [h.text_eq]
  exact analyzeText_append_hidden hlast.mask hmask file

def truncationWarnings (file : SourceFile) : List Warning :=
  if file.text.utf8ByteSize ≤ maxScanBytes then []
  else [.parse file.path 1 truncationMessage]

theorem warnings_analyze (file : SourceFile) : (analyze file).warnings =
    truncationWarnings file ++ (analyzeText file.path (scanned file)).warnings := by
  unfold analyze scanned truncationWarnings
  split <;> rfl

theorem truncationWarnings_eq_nil {file : SourceFile} :
    truncationWarnings file = [] ↔ file.text.utf8ByteSize ≤ maxScanBytes := by
  simp [truncationWarnings]

theorem kind_of_mem_warnings {file : SourceFile} {w : Warning} (h : w ∈ (analyze file).warnings) :
    w.kind = .parse := by
  rw [warnings_analyze, List.mem_append] at h
  rcases h with h | h
  · unfold truncationWarnings at h
    split at h
    · simp at h
    · rw [List.mem_singleton.1 h]
      rfl
  · rw [warnings_analyzeText] at h
    obtain ⟨d, -, hd⟩ := List.mem_filterMap.1 h
    split at hd
    · simp at hd
    · rw [← Option.some.inj hd]
      rfl

/-- The only warnings on a text are about declarations whose bodies do not end. -/
theorem warnings_analyzeText_eq_nil {file : Path} {text : List Char} :
    (analyzeText file text).warnings = [] ↔ ∀ d ∈ declarations (mask text),
      bodyEnd? (mask text) d.header.offset ≠ none := by
  rw [(analyzeText_extents file text).warnings, List.filterMap_eq_nil_iff]
  refine forall₂_congr fun d _ => ?_
  cases bodyEnd? (mask text) d.header.offset <;> simp

/-- What is hidden at the end of a file leaves no trace: classes and warnings are those of the text
up to the mark that hides it, so there is a warning only if the file is too long or a class before
the mark has no body that ends there. -/
theorem analyze_hidden (file : SourceFile) (h : EndsHidden (scanned file)) :
    ∃ seen mark hidden, HiddenRest [.code] (scanned file) seen mark hidden ∧
      (analyze file).classes = (analyzeText file.path (seen ++ mark)).classes ∧
      (analyze file).warnings =
        truncationWarnings file ++ (analyzeText file.path (seen ++ mark)).warnings ∧
      ((∃ w ∈ (analyze file).warnings, w.kind = .parse) ↔
        maxScanBytes < file.text.utf8ByteSize ∨ ∃ d ∈ declarations (mask (seen ++ mark)),
          bodyEnd? (mask (seen ++ mark)) d.header.offset = none) := by
  obtain ⟨seen, mark, hidden, hrest⟩ := h.exists_hiddenRest
  have hwarnings : (analyze file).warnings =
      truncationWarnings file ++ (analyzeText file.path (seen ++ mark)).warnings := by
    rw [warnings_analyze, hrest.analyzeText_eq]
  refine ⟨seen, mark, hidden, hrest, ?_, hwarnings, ?_⟩
  · rw [classes_analyze, hrest.analyzeText_eq]
  · have hsome : (∃ w ∈ (analyze file).warnings, w.kind = .parse) ↔
        (analyze file).warnings ≠ [] := by
      constructor
      · rintro ⟨w, hw, -⟩
        exact List.ne_nil_of_mem hw
      · intro hne
        obtain ⟨w, hw⟩ := List.exists_mem_of_ne_nil _ hne
        exact ⟨w, hw, kind_of_mem_warnings hw⟩
    rw [hsome, hwarnings, Ne, List.append_eq_nil_iff, truncationWarnings_eq_nil,
      warnings_analyzeText_eq_nil]
    simp only [not_and_or, not_le, not_forall, not_not, exists_prop]

def hiddenClass : SourceFile := ⟨⟨"/a.js"⟩, .javaScript, "class A \x7b\x7d\nx = \x60\nclass B \x7b\n"⟩

theorem analyze_hiddenClass : EndsHidden (scanned hiddenClass) ∧
    ∃ seen mark hidden, HiddenRest [.code] (scanned hiddenClass) seen mark hidden ∧
      (analyze hiddenClass).classes = (analyzeText hiddenClass.path (seen ++ mark)).classes ∧
      (analyze hiddenClass).warnings = truncationWarnings hiddenClass ++
        (analyzeText hiddenClass.path (seen ++ mark)).warnings ∧
      ((∃ w ∈ (analyze hiddenClass).warnings, w.kind = .parse) ↔
        maxScanBytes < hiddenClass.text.utf8ByteSize ∨ ∃ d ∈ declarations (mask (seen ++ mark)),
          bodyEnd? (mask (seen ++ mark)) d.header.offset = none) := by
  have h : EndsHidden (scanned hiddenClass) := by decide +kernel
  exact ⟨h, analyze_hidden hiddenClass h⟩

/-- A comment that nothing closes hides a class without a warning. -/
theorem not_forall_hidden_warned : ¬ ∀ file : SourceFile, EndsHidden (scanned file) →
    ∃ w ∈ (analyze file).warnings, w.kind = .parse := by
  intro h
  have hsize : ("/*\nclass A \x7b\n\x7d\n" : String).utf8ByteSize ≤ maxScanBytes := by
    decide +kernel
  obtain ⟨w, hw, -⟩ := h ⟨⟨"/a.js"⟩, .javaScript, "/*\nclass A \x7b\n\x7d\n"⟩ (by decide +kernel)
  have hnone : (analyze ⟨⟨"/a.js"⟩, .javaScript, "/*\nclass A \x7b\n\x7d\n"⟩).warnings = [] := by
    rw [analyze_of_size_le hsize, warnings_analyzeText_eq_nil]
    decide +kernel
  simp [hnone] at hw

end CodeAtlas.Script
