import CodeAtlas.Proofs.Script.Bodies
import CodeAtlas.Proofs.Script.Layout

/-!
# The lines of classes

Masking keeps offsets and line feeds, so the lines that are told from the masked text are those of
the text itself: a class begins in the line of its keyword and ends in that of its closing brace.
The lines counted for it are those of its span that no class inside it takes up, besides the first
and the last one, which are always its own.
-/
namespace CodeAtlas.Script

/-! ### Words in their lines -/

def StandsIn (text word : List Char) (offset n : Nat) : Prop :=
  ∃ before after right, text = before ++ word ++ after ∧ Text.byteSize before = offset ∧
    right <+: after ∧
    (Text.lines text)[n - 1]? = some ((linePrefix [] before).reverse ++ word ++ right)

section Lines
variable {line base pre word post : List Char}

theorem linePrefix_of_not_mem (h : '\n' ∉ word) :
    linePrefix base word = word.reverse ++ base := by
  induction word generalizing base with
  | nil => rfl
  | cons c word ih =>
    obtain ⟨hc, hword⟩ := not_or.1 (mt List.mem_cons.2 h)
    rw [linePrefix_cons, if_neg (Ne.symm hc), ih hword, List.reverse_cons, List.append_assoc,
      List.singleton_append]

/-- A first part of a text gives as many lines as it has line feeds; the line after them goes on. -/
theorem linesFrom_append (line pre : List Char) :
    ∃ done, done.length = pre.count '\n' ∧ ∀ post, Text.linesFrom line [] (pre ++ post) =
      done ++ Text.linesFrom (linePrefix line pre) [] post := by
  induction pre generalizing line with
  | nil => exact ⟨[], rfl, fun _ => rfl⟩
  | cons c pre ih =>
    simp only [List.cons_append, Text.linesFrom, linePrefix_cons]
    by_cases hc : c = '\n'
    · obtain ⟨done, hlength, he⟩ := ih []
      refine ⟨(Text.dropReturn line).reverse :: done, ?_, fun post => ?_⟩
      · rw [List.length_cons, hlength, hc, List.count_cons_self]
      · rw [if_pos hc, if_pos hc, Text.linesFrom_eq, he]
        simp
    · obtain ⟨done, hlength, he⟩ := ih (c :: line)
      refine ⟨done, by rw [hlength, List.count_cons_of_ne (by simpa using hc)], fun post => ?_⟩
      rw [if_neg hc, if_neg hc, he]

/-- The lines that are ended in a first part of a text are those of the text. -/
theorem getElem?_lines_append {n : Nat} (hn : n < pre.count '\n') (post : List Char) :
    (Text.lines (pre ++ post))[n]? = (Text.lines pre)[n]? := by
  obtain ⟨done, hlength, he⟩ := linesFrom_append [] pre
  have hshort := he []
  rw [List.append_nil] at hshort
  rw [Text.lines, Text.lines, he, hshort, List.getElem?_append_left (by omega),
    List.getElem?_append_left (by omega)]

theorem length_lines_le (pre : List Char) : (Text.lines pre).length ≤ pre.count '\n' + 1 := by
  obtain ⟨done, hlength, he⟩ := linesFrom_append [] pre
  have hshort := he []
  rw [List.append_nil] at hshort
  rw [Text.lines, hshort, List.length_append, hlength, Text.linesFrom]
  split <;> simp

/-- The line that is being read keeps what is read of it, but for a carriage return at its end. -/
theorem head?_linesFrom (hne : base ≠ []) (hbase : base.head? ≠ some '\r')
    (extra post : List Char) :
    ∃ right, right <+: extra.reverse ++ post ∧
      (Text.linesFrom (extra ++ base) [] post).head? = some (base.reverse ++ right) := by
  induction post generalizing extra with
  | nil =>
    refine ⟨extra.reverse, by simp, ?_⟩
    simp [Text.linesFrom, hne]
  | cons c post ih =>
    rw [Text.linesFrom]
    by_cases hc : c = '\n'
    · rw [if_pos hc, Text.linesFrom_eq]
      cases extra with
      | nil => exact ⟨[], List.nil_prefix, by simp [Text.dropReturn_eq hbase]⟩
      | cons x extra =>
        by_cases hx : x = '\r'
        · refine ⟨extra.reverse, ?_, by simp [hx, Text.dropReturn]⟩
          rw [List.reverse_cons, List.append_assoc]
          exact List.prefix_append _ _
        · refine ⟨(x :: extra).reverse, List.prefix_append _ _, ?_⟩
          have hkeep : Text.dropReturn (x :: (extra ++ base)) = x :: (extra ++ base) :=
            Text.dropReturn_eq (by simpa using hx)
          simp [hkeep]
    · obtain ⟨right, hright, he⟩ := ih (c :: extra)
      rw [if_neg hc]
      exact ⟨right, by simpa using hright, he⟩

/-- A word stands whole in the line in which it begins. -/
theorem exists_line (hword : word ≠ []) (hfeed : '\n' ∉ word)
    (hreturn : word.getLast? ≠ some '\r') :
    ∃ right, right <+: post ∧ (Text.lines (pre ++ word ++ post))[pre.count '\n']? =
      some ((linePrefix [] pre).reverse ++ word ++ right) := by
  obtain ⟨done, hlength, he⟩ := linesFrom_append [] (pre ++ word)
  have hcount : (pre ++ word).count '\n' = pre.count '\n' := by
    rw [List.count_append, List.count_eq_zero.2 hfeed, Nat.add_zero]
  have hprefix : linePrefix [] (pre ++ word) = word.reverse ++ linePrefix [] pre := by
    rw [linePrefix, List.foldl_append]
    exact linePrefix_of_not_mem hfeed
  obtain ⟨right, hright, hhead⟩ := @head?_linesFrom (word.reverse ++ linePrefix [] pre)
    (by simp [hword]) (by simpa [List.head?_append, hword] using hreturn) [] post
  refine ⟨right, hright, ?_⟩
  rw [List.nil_append] at hhead
  rw [Text.lines, he, hprefix, ← hcount, ← hlength, List.getElem?_append_right (Nat.le_refl _),
    Nat.sub_self, ← List.head?_eq_getElem?, hhead]
  simp

end Lines

/-- What stands in the masked text stands in the text, in the line that is told from the offset. -/
theorem standsIn_of_mask {text word before after : List Char} (hword : word ≠ [])
    (hink : ∀ d ∈ word, IsInk d) (hreturn : word.getLast? ≠ some '\r')
    (h : mask text = before ++ word ++ after) :
    StandsIn text word (Text.byteSize before)
      (Text.lineAt (mask text) (Text.byteSize before)) := by
  have hveiled := veiled_mask text
  rw [h] at hveiled
  obtain ⟨pre, post, rfl, hpre, -⟩ := hveiled.exists_of_word hword hink
  have hfeed : '\n' ∉ word := fun hmem => (hink '\n' hmem).2 rfl
  obtain ⟨right, hright, hline⟩ := @exists_line pre word post hword hfeed hreturn
  refine ⟨pre, post, right, rfl, hpre.byteSize_eq.symm, hright, ?_⟩
  rw [Text.lineAt, Nat.add_sub_cancel, h, List.append_assoc before, Text.takeBytes_byteSize,
    hpre.count_newline]
  exact hline

section Standing
variable {text word : List Char} {offset n : Nat}

theorem StandsIn.holdsText (h : StandsIn text word offset n)
    (hword : ∃ c ∈ word, Text.isBlank c = false) :
    Text.holdsText (Text.lines text).toArray n = true := by
  obtain ⟨before, after, right, -, -, -, hline⟩ := h
  obtain ⟨c, hc, hblank⟩ := hword
  have hinked : Text.allBlank ((linePrefix [] before).reverse ++ word ++ right) = false :=
    List.all_eq_false.2 ⟨c, by simp [hc], by simp [hblank]⟩
  rw [Text.holdsText, List.getElem?_toArray, hline, Option.any_some, hinked, Bool.not_false]

theorem StandsIn.le_length (h : StandsIn text word offset n) :
    n ≤ (Text.lines text).length := by
  obtain ⟨before, after, right, -, -, -, hline⟩ := h
  have := (List.getElem?_eq_some_iff.1 hline).1
  omega

/-- Lines of a first part are counted alike in the whole text, up to one in which a word of the
first part stands. -/
theorem StandsIn.countLoc_append {s t : List Char} (hs : StandsIn s word offset n)
    (hst : StandsIn (s ++ t) word offset n) (hword : ∃ c ∈ word, Text.isBlank c = false)
    (first : Nat) (nested : List LineSpan) :
    countLoc (Text.lines (s ++ t)).toArray first n nested =
      countLoc (Text.lines s).toArray first n nested := by
  have hle := hs.le_length
  have hle' := hst.le_length
  have hcount := length_lines_le s
  rw [countLoc, countLoc, List.size_toArray, List.size_toArray, Nat.min_eq_left hle,
    Nat.min_eq_left hle']
  apply List.countP_congr
  intro m hm
  obtain ⟨hfirst, hmn⟩ := List.mem_range'_1.1 hm
  by_cases hlast : m - 1 = n - 1
  · -- The word shows in its line, however long the line is in either text.
    have hholds := hs.holdsText hword
    have hholds' := hst.holdsText hword
    rw [Text.holdsText] at hholds hholds'
    rw [hlast, hholds, hholds']
  · rw [List.getElem?_toArray, List.getElem?_toArray, getElem?_lines_append (by omega)]

end Standing

/-! ### Declarations and bodies -/

section Order
variable {starts : Array Nat} {before : List Char}

theorem line_of_declarationAt? {place : Place} {d : Declaration}
    (h : declarationAt? starts before place = some d) :
    d.line = Text.lineOf starts place.offset := by
  obtain ⟨offset, cs⟩ := place
  by_cases hk : keyword <+: cs
  · obtain ⟨rest, rfl⟩ := hk
    rw [declarationAt?_keyword, Option.ite_none_right_eq_some] at h
    rw [← Option.some.inj h.2, line_declarationOf]
  · have hnone := @declarationAt?_of_not_keyword starts before ⟨offset, cs⟩ hk
    rw [hnone] at h
    simp at h

theorem declarationsFrom_ascending
    (hmono : ∀ m n, m ≤ n → Text.lineOf starts m ≤ Text.lineOf starts n) (offset : Nat)
    (before cs : List Char) :
    (declarationsFrom starts offset before [] cs).Pairwise (·.line ≤ ·.line) := by
  induction cs generalizing offset before with
  | nil => simp [declarationsFrom]
  | cons c cs ih =>
    rw [declarationsFrom_cons]
    refine List.pairwise_append.2 ⟨?_, ih _ _, fun d hd d' hd' => ?_⟩
    · cases declarationAt? starts before ⟨offset, c :: cs⟩ <;> simp
    · obtain ⟨pre, rest, -, -, rfl⟩ := exists_keyword hd'
      rw [line_of_declarationAt? (Option.mem_toList.1 hd), line_declarationOf]
      exact hmono _ _ (by simp only; omega)

end Order

section Bodies
variable {masked : List Char} {b : Body}

theorem bodiesOf_ascending (masked : List Char) :
    (bodiesOf masked).Pairwise (·.declaration.line ≤ ·.declaration.line) := by
  have hmono : ∀ m n, m ≤ n → Text.lineOf (Text.lineStarts masked).toArray m ≤
      Text.lineOf (Text.lineStarts masked).toArray n := by
    intro m n h
    rw [Text.lineOf_lineStarts, Text.lineOf_lineStarts]
    exact Text.lineAt_mono masked h
  refine (List.pairwise_filterMap).2 ?_
  refine (declarationsFrom_ascending hmono 0 [] masked).imp_of_mem ?_
  intro d d' hd hd' hle b hb b' hb'
  obtain ⟨rfl, -, -⟩ := (bodyOf_eq_ok (header_isIn hd)).1 (toOption_eq_some.1 hb)
  obtain ⟨rfl, -, -⟩ := (bodyOf_eq_ok (header_isIn hd')).1 (toOption_eq_some.1 hb')
  exact hle

theorem exists_keyword_of_mem_bodiesOf (h : b ∈ bodiesOf masked) :
    ∃ before after, masked = before ++ keyword ++ after ∧
      declarationAt? (Text.lineStarts masked).toArray (linePrefix [] before)
        ⟨Text.byteSize before, keyword ++ after⟩ = some b.declaration ∧
      b.declaration.line = Text.lineAt masked (Text.byteSize before) ∧
      Text.byteSize before < b.opening.offset := by
  obtain ⟨d, hd, hbody⟩ := List.mem_filterMap.1 h
  obtain ⟨rfl, hopen, -⟩ := (bodyOf_eq_ok (header_isIn hd)).1 (toOption_eq_some.1 hbody)
  have hheader := (Place.open?_isIn (header_isIn hd) hopen).2.1
  obtain ⟨before, after, hmasked, hintro, hdeclaration⟩ := exists_keyword hd
  rw [Nat.zero_add] at hdeclaration
  have hat : declarationAt? (Text.lineStarts masked).toArray (linePrefix [] before)
      ⟨Text.byteSize before, keyword ++ after⟩ = some b.declaration := by
    rw [declarationAt?_keyword, if_pos hintro, ← hdeclaration]
  refine ⟨before, after, hmasked, hat, ?_, ?_⟩
  · rw [line_of_declarationAt? hat, Text.lineOf_lineStarts]
  · have hafter : (Place.mk (Text.byteSize before + 5) after).IsIn masked :=
      ⟨before ++ keyword, hmasked, by rw [Text.byteSize_append, byteSize_keyword]⟩
    have hle := (@header_declarationOf
      (Text.lineOf (Text.lineStarts masked).toArray (Text.byteSize before))
      (linePrefix [] before) _ _ hafter).2
    rw [← hdeclaration] at hle
    simp only at hle
    omega

end Bodies

/-! ### Lines of code -/

def classOf (file : Path) (text : List Char) : Body → ClassInfo :=
  Body.classInfo file (Text.lineStarts (mask text)).toArray (Text.lines text).toArray
    (bodiesOf (mask text))

/-- Whether the line is one of the class's own: its first or last one, or one that no class inside
it takes up. -/
def Body.Owns (bodies : List Body) (info : Body → ClassInfo) (b : Body) (n : Nat) : Prop :=
  n = (info b).startLine ∨ n = (info b).endLine ∨
    ∀ inner ∈ bodies, b.encloses inner = true →
      ¬ ((info inner).startLine ≤ n ∧ n ≤ (info inner).endLine)

instance (bodies : List Body) (info : Body → ClassInfo) (b : Body) (n : Nat) :
    Decidable (b.Owns bodies info n) :=
  inferInstanceAs (Decidable (_ ∨ _ ∨ _))

section Loc
variable {starts : Array Nat} {bodies : List Body} {b : Body} {n : Nat}

theorem inSpans_nestedSpans : inSpans (b.nestedSpans starts bodies) n = true ↔
    ∃ inner ∈ bodies, b.encloses inner = true ∧
      (max inner.declaration.line (b.declaration.line + 1) ≤ n ∧
        n ≤ min (inner.endLine starts) (b.endLine starts - 1)) := by
  simp only [inSpans, Body.nestedSpans, List.any_eq_true, List.mem_filter, List.mem_map,
    Bool.and_eq_true, decide_eq_true_eq]
  constructor
  · rintro ⟨-, ⟨⟨inner, ⟨hinner, hencloses⟩, rfl⟩, -⟩, hn⟩
    exact ⟨inner, hinner, hencloses, hn⟩
  · rintro ⟨inner, hinner, hencloses, hn⟩
    exact ⟨_, ⟨⟨inner, ⟨hinner, hencloses⟩, rfl⟩, Nat.le_trans hn.1 hn.2⟩, hn⟩

/-- The lines that are left out of a class's span are those that are not its own. -/
theorem inSpans_eq_not_owns {file : Path} {lines : Array (List Char)} {all : List Body}
    (hfirst : b.declaration.line ≤ n) (hlast : n ≤ b.endLine starts) :
    inSpans (b.nestedSpans starts bodies) n =
      !decide (b.Owns bodies (Body.classInfo file starts lines all) n) := by
  rw [Bool.eq_iff_iff, inSpans_nestedSpans, Bool.not_eq_true', decide_eq_false_iff_not]
  simp only [Body.Owns, Body.classInfo, not_or, not_forall, not_not]
  constructor
  · rintro ⟨inner, hinner, hencloses, hn⟩
    exact ⟨by omega, by omega, inner, hinner, hencloses, by omega⟩
  · rintro ⟨hstart, hend, inner, hinner, hencloses, hn⟩
    exact ⟨inner, hinner, hencloses, by omega⟩

end Loc

/-- A count over a span of lines counts its first line, and its last one too if it is another. -/
theorem le_countP_range' {p : Nat → Bool} {first last : Nat} (hle : first ≤ last)
    (hfirst : p first = true) (hlast : p last = true) :
    1 ≤ (List.range' first (last + 1 - first)).countP p ∧
      (first < last → 2 ≤ (List.range' first (last + 1 - first)).countP p) := by
  have hlength : last + 1 - first = last - first + 1 := by omega
  rw [hlength, List.range'_succ, List.countP_cons_of_pos hfirst]
  refine ⟨by omega, fun hlt => ?_⟩
  have hmem : last ∈ List.range' (first + 1) (last - first) := List.mem_range'_1.2 (by omega)
  have := List.countP_pos_iff.2 ⟨last, hmem, hlast⟩
  omega

/-! ### The lines that are told -/

/-- Whether the class of a body has the lines that its keyword and its closing brace stand in, and
counts its own lines among them that hold text. -/
structure Body.KeepsLines (text : List Char) (bodies : List Body) (info : Body → ClassInfo)
    (b : Body) : Prop where
  isIn : b.IsIn (mask text)
  startLine_pos : 1 ≤ (info b).startLine
  startLine_le : (info b).startLine ≤ (info b).endLine
  endLine_le : (info b).endLine ≤ (Text.lines text).length
  begins : ∃ before after, mask text = before ++ keyword ++ after ∧
    declarationAt? (Text.lineStarts (mask text)).toArray (linePrefix [] before)
      ⟨Text.byteSize before, keyword ++ after⟩ = some b.declaration ∧
    StandsIn text keyword (Text.byteSize before) (info b).startLine
  ends : StandsIn text ['\x7d'] b.close (info b).endLine
  loc : (info b).loc =
    (List.range' (info b).startLine ((info b).endLine + 1 - (info b).startLine)).countP
      fun n => decide (b.Owns bodies info n) && Text.holdsText (Text.lines text).toArray n
  loc_pos : 1 ≤ (info b).loc
  two_le_loc : (info b).startLine < (info b).endLine → 2 ≤ (info b).loc

section Told
variable {file : Path} {text : List Char} {b : Body}

theorem endLine_classOf : (classOf file text b).endLine = Text.lineAt (mask text) b.close :=
  Text.lineOf_lineStarts _ _

theorem loc_classOf (hlast : (classOf file text b).endLine ≤ (Text.lines text).length) :
    (classOf file text b).loc =
      (List.range' (classOf file text b).startLine
        ((classOf file text b).endLine + 1 - (classOf file text b).startLine)).countP fun n =>
          decide (b.Owns (bodiesOf (mask text)) (classOf file text) n) &&
            Text.holdsText (Text.lines text).toArray n := by
  have hmin : min (classOf file text b).endLine (Text.lines text).toArray.size =
      (classOf file text b).endLine := by
    rw [List.size_toArray]
    omega
  have hloc : (classOf file text b).loc = countLoc (Text.lines text).toArray
    (classOf file text b).startLine (classOf file text b).endLine
    (b.nestedSpans (Text.lineStarts (mask text)).toArray (bodiesOf (mask text))) := rfl
  rw [hloc, countLoc, hmin]
  apply List.countP_congr
  intro n hn
  obtain ⟨hstart, hend⟩ := List.mem_range'_1.1 hn
  have hend : n ≤ (classOf file text b).endLine := by omega
  have hspans := @inSpans_eq_not_owns _ (bodiesOf (mask text)) b n file
    (Text.lines text).toArray (bodiesOf (mask text)) hstart hend
  rw [hspans, Bool.not_not]
  rfl

theorem isInk_keyword : ∀ d ∈ keyword, IsInk d := by
  simp [keyword, IsInk]

theorem isInk_close : ∀ d ∈ ['\x7d'], IsInk d := by
  simp [IsInk]

theorem standsIn_close (hin : b.IsIn (mask text)) :
    StandsIn text ['\x7d'] b.close (classOf file text b).endLine := by
  obtain ⟨front, inner, rest, hmask, -, hclose⟩ := hin.exists_inner
  rw [endLine_classOf, hclose]
  exact standsIn_of_mask (by simp) isInk_close (by simp)
    (by rw [hmask, List.append_assoc _ ['\x7d']]; rfl)

theorem keepsLines_classOf (hb : b ∈ bodiesOf (mask text)) :
    b.KeepsLines text (bodiesOf (mask text)) (classOf file text) := by
  have hin := isIn_of_mem_bodiesOf hb
  obtain ⟨before, after, hmask, hat, hstart, hopening⟩ := exists_keyword_of_mem_bodiesOf hb
  have hstart : (classOf file text b).startLine = Text.lineAt (mask text) (Text.byteSize before) :=
    hstart
  have hbegins : StandsIn text keyword (Text.byteSize before) (classOf file text b).startLine := by
    rw [hstart]
    exact standsIn_of_mask (by simp [keyword]) isInk_keyword (by simp [keyword]) hmask
  have hends : StandsIn text ['\x7d'] b.close (classOf file text b).endLine := standsIn_close hin
  have hle : (classOf file text b).startLine ≤ (classOf file text b).endLine := by
    have := hin.opening_lt_close
    rw [hstart, endLine_classOf]
    exact Text.lineAt_mono _ (by omega)
  have hloc := loc_classOf hends.le_length
  -- The first and the last line are the class's own, and hold its keyword and its closing brace.
  have hfirst := hbegins.holdsText ⟨'c', List.mem_cons_self, by decide⟩
  have hlast := hends.holdsText ⟨'\x7d', List.mem_cons_self, by decide⟩
  have hcount := le_countP_range' (p := fun n =>
      decide (b.Owns (bodiesOf (mask text)) (classOf file text) n) &&
        Text.holdsText (Text.lines text).toArray n) hle
    (by simp [Body.Owns, hfirst]) (by simp [Body.Owns, hlast])
  exact {
    isIn := hin
    startLine_pos := Nat.le_trans (Text.lineAt_pos _ _) (Nat.le_of_eq hstart.symm)
    startLine_le := hle
    endLine_le := hends.le_length
    begins := ⟨before, after, hmask, hat, hbegins⟩
    ends := hends
    loc := hloc
    loc_pos := hloc ▸ hcount.1
    two_le_loc := fun hlt => hloc ▸ hcount.2 hlt }

end Told

/-- The classes of a script that is looked at whole have the lines of their keywords and closing
braces, in order, and count what is their own there. -/
theorem class_lines (file : SourceFile) (h : file.text.utf8ByteSize ≤ maxScanBytes) :
    ∃ info : Body → ClassInfo,
      (analyze file).classes = (bodiesOf (mask file.text.toList)).map info ∧
      (∀ b ∈ bodiesOf (mask file.text.toList),
        b.KeepsLines file.text.toList (bodiesOf (mask file.text.toList)) info) ∧
      (analyze file).classes.Pairwise (·.startLine ≤ ·.startLine) := by
  have hclasses : (analyze file).classes =
      (bodiesOf (mask file.text.toList)).map (classOf file.path file.text.toList) := by
    rw [analyze_of_size_le h, classes_analyzeText]
    rfl
  refine ⟨_, hclasses, fun b hb => keepsLines_classOf hb, ?_⟩
  rw [hclasses]
  exact List.pairwise_map.2 (bodiesOf_ascending _)

def sharedLines : SourceFile :=
  ⟨⟨"/a.js"⟩, .javaScript,
    "class A \x7b B = class \x7b\n  m() \x7b\x7d\n\n  \x7d\n// \x7d\n  C = class \x7b\n\n  \x7d \x7d\n"⟩

theorem class_lines_sharedLines : sharedLines.text.utf8ByteSize ≤ maxScanBytes ∧
    (∃ info : Body → ClassInfo,
      (analyze sharedLines).classes = (bodiesOf (mask sharedLines.text.toList)).map info ∧
      (∀ b ∈ bodiesOf (mask sharedLines.text.toList),
        b.KeepsLines sharedLines.text.toList (bodiesOf (mask sharedLines.text.toList)) info) ∧
      (analyze sharedLines).classes.Pairwise (·.startLine ≤ ·.startLine)) ∧
    (analyze sharedLines).classes.map (fun c => (c.name, c.file, c.startLine, c.endLine)) =
      [("A", ⟨"/a.js"⟩, 1, 8), ("B", ⟨"/a.js"⟩, 1, 4), ("C", ⟨"/a.js"⟩, 6, 8)] := by
  have hsize : sharedLines.text.utf8ByteSize ≤ maxScanBytes := by decide +kernel
  refine ⟨hsize, class_lines sharedLines hsize, ?_⟩
  rw [(analyze_extents sharedLines hsize).classes]
  decide +kernel

end CodeAtlas.Script
