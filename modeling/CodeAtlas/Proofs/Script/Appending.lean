import CodeAtlas.Proofs.Script.ClassLines
import CodeAtlas.Proofs.Script.Members

/-!
# Text behind the classes of a script

A script that ends with a line feed, in code and with every class closed, can go on in any way: its
classes keep their names, lines and counts, and what is found besides them begins behind it. Each
stage of the analysis is shown to give for the longer text what it gave for the shorter one.
-/
namespace CodeAtlas.Script

/-! ### Members -/

section Members
variable {close offset depth : Nat} {pending : Bool}

theorem memberStartsFrom_append {cs : List Char} (h : close ≤ offset + Text.byteSize cs)
    (more : List Char) :
    memberStartsFrom close offset depth pending [] (cs ++ more) =
      (memberStartsFrom close offset depth pending [] cs).map (·.extend more) := by
  induction cs generalizing offset depth pending with
  | nil =>
    have hend : close ≤ offset := by simpa using h
    cases more with
    | nil => rfl
    | cons c more => simp [memberStartsFrom, hend]
  | cons c cs ih =>
    have hrest : close ≤ offset + c.utf8Size + Text.byteSize cs := by
      rw [Text.byteSize_cons] at h
      omega
    rw [List.cons_append, memberStartsFrom_cons, memberStartsFrom_cons, ih hrest]
    split
    · rfl
    · split <;> rfl

end Members

theorem Place.window_extend {p : Place} {close : Nat}
    (h : close ≤ p.offset + Text.byteSize p.rest) (more : List Char) :
    (p.extend more).window close = p.window close := by
  have hlimit : min memberWindow (close - p.offset) ≤ Text.byteSize p.rest := by omega
  exact Text.takeBytes_append_of_le hlimit more

/-- Members are looked for before the closing brace only. -/
theorem countMembers_extend {o : Place} {rest : List Char} {close : Nat}
    (hopen : o.rest = '{' :: rest) (h : close ≤ o.offset + Text.byteSize o.rest)
    (more : List Char) : countMembers (o.extend more) close = countMembers o close := by
  obtain ⟨offset, cs⟩ := o
  obtain rfl : cs = '{' :: rest := hopen
  have hsize : '{'.utf8Size = 1 := by decide
  have hend : close ≤ offset + 1 + Text.byteSize rest := by
    simp only [Text.byteSize_cons, hsize] at h
    omega
  have hstarts : memberStarts (Place.extend ⟨offset, '{' :: rest⟩ more) close =
      (memberStarts ⟨offset, '{' :: rest⟩ close).map (·.extend more) :=
    memberStartsFrom_append hend more
  rw [countMembers, countMembers, hstarts, List.countP_map]
  apply List.countP_congr
  intro p hp
  obtain ⟨inner, hinner, hoffset, -, -⟩ := exists_of_mem_memberStartsFrom hp
  have hwindow : close ≤ p.offset + Text.byteSize p.rest := by
    have hrest : rest = inner ++ p.rest := hinner
    rw [hrest, Text.byteSize_append] at hend
    simp only at hoffset
    omega
  rw [Function.comp_apply, Place.window_extend hwindow]

/-! ### Bodies -/

def Body.extend (b : Body) (more : List Char) : Body :=
  ⟨b.declaration.extend more, b.opening.extend more, b.close⟩

theorem Place.IsIn.extend {p : Place} {text : List Char} (h : p.IsIn text) (more : List Char) :
    (p.extend more).IsIn (text ++ more) := by
  obtain ⟨before, rfl, hoffset⟩ := h
  exact ⟨before, by simp [Place.extend], hoffset⟩

theorem Body.IsIn.extend {b : Body} {masked : List Char} (h : b.IsIn masked) (more : List Char) :
    (b.extend more).IsIn (masked ++ more) where
  opening := h.opening.extend more
  opens := by
    obtain ⟨rest, hrest⟩ := h.opens
    exact ⟨rest ++ more, by simp [Body.extend, Place.extend, hrest]⟩
  closes := closeFrom?_append h.closes more

theorem bodyOf_extend {masked more : List Char} {d : Declaration} {b : Body}
    (hin : d.header.IsIn masked) (h : bodyOf (matchBraces masked) d = .ok b) :
    bodyOf (matchBraces (masked ++ more)) (d.extend more) = .ok (b.extend more) := by
  obtain ⟨rfl, ho, hclose⟩ := (bodyOf_eq_ok hin).1 h
  exact (bodyOf_eq_ok (hin.extend more)).2
    ⟨rfl, Place.open?_extend ho more, closeFrom?_append hclose more⟩

structure Body.Behind (b : Body) (masked : List Char) : Prop where
  line : masked.count '\n' < b.declaration.line
  opening : Text.byteSize masked ≤ b.opening.offset
  opening_lt_close : b.opening.offset < b.close

theorem behind_of_mem {masked more : List Char} {d : Declaration} {b : Body}
    (hd : d ∈ declarationsFrom (Text.lineStarts (masked ++ more)).toArray (Text.byteSize masked)
      (linePrefix [] masked) [] more)
    (h : bodyOf (matchBraces (masked ++ more)) d = .ok b) : b.Behind masked := by
  obtain ⟨pre, rest, rfl, -, rfl⟩ := exists_keyword hd
  have hafter : (Place.mk (Text.byteSize masked + Text.byteSize pre + 5) rest).IsIn
      (masked ++ (pre ++ keyword ++ rest)) :=
    ⟨masked ++ pre ++ keyword, by simp, by simp [byteSize_keyword, Nat.add_assoc]⟩
  obtain ⟨hin, hheader⟩ := @header_declarationOf
    (Text.lineOf (Text.lineStarts (masked ++ (pre ++ keyword ++ rest))).toArray
      (Text.byteSize masked + Text.byteSize pre))
    (linePrefix (linePrefix [] masked) pre) _ _ hafter
  obtain ⟨hb, ho, -⟩ := (bodyOf_eq_ok hin).1 h
  obtain ⟨-, hopening, -⟩ := Place.open?_isIn hin ho
  refine ⟨?_, by simp only at hheader; omega, (body_isIn hin h).opening_lt_close⟩
  have hpos := Text.lineAt_pos (pre ++ keyword ++ rest) (Text.byteSize pre)
  rw [hb, line_declarationOf, Text.lineOf_lineStarts, Text.lineAt_byteSize_add]
  omega

/-- The declarations of a text are those of the longer one, and the others come after the text. -/
theorem declarations_append {masked more : List Char} (hlast : EndsNoName masked)
    (hdangling : NoneDangling masked ∨ Text.allBlank more = true) :
    declarations (masked ++ more) = (declarations masked).map (·.extend more) ++
      declarationsFrom (Text.lineStarts (masked ++ more)).toArray (Text.byteSize masked)
        (linePrefix [] masked) [] more := by
  have hline : ∀ n ≤ Text.byteSize masked,
      Text.lineOf (Text.lineStarts (masked ++ more)).toArray n =
        Text.lineOf (Text.lineStarts masked).toArray n := by
    intro n hn
    rw [Text.lineOf_lineStarts, Text.lineOf_lineStarts, Text.lineAt_append_of_le hn]
  exact @declarationsFrom_append _ _ _ more hlast hline hdangling [] masked rfl

/-- Bodies of a text are bodies of the longer one, and the others come after the text. -/
theorem bodiesOf_append {masked : List Char} (hlast : masked.getLast? = some '\n')
    (hdangling : NoneDangling masked)
    (hclosed : ∀ d ∈ declarations masked, ∃ b, bodyOf (matchBraces masked) d = .ok b)
    (more : List Char) :
    ∃ later, bodiesOf (masked ++ more) = (bodiesOf masked).map (·.extend more) ++ later ∧
      ∀ b ∈ later, b.Behind masked := by
  rw [bodiesOf, declarations_append (.of_newline hlast) (Or.inl hdangling), List.filterMap_append]
  refine ⟨_, congrArg (· ++ _) ?_, fun b hb => ?_⟩
  · rw [List.filterMap_map, bodiesOf, List.map_filterMap]
    apply List.filterMap_congr
    intro d hd
    obtain ⟨b, hb⟩ := hclosed d hd
    rw [Function.comp_apply, bodyOf_extend (header_isIn hd) hb, hb]
    rfl
  · obtain ⟨d, hd, hbody⟩ := List.mem_filterMap.1 hb
    exact behind_of_mem hd (toOption_eq_some.1 hbody)

/-! ### Classes -/

theorem nestedSpans_extend {starts starts' : Array Nat} {bodies later : List Body} {b : Body}
    {more : List Char} (hline : ∀ b ∈ bodies, b.endLine starts' = b.endLine starts)
    (hb : b ∈ bodies) (hlater : ∀ inner ∈ later, b.encloses inner = false) :
    Body.nestedSpans starts' (bodies.map (·.extend more) ++ later) (b.extend more) =
      Body.nestedSpans starts bodies b := by
  have hfilter : (bodies.map (·.extend more) ++ later).filter (b.extend more).encloses =
      (bodies.filter b.encloses).map (·.extend more) := by
    have hnone : later.filter (b.extend more).encloses = [] := by
      rw [List.filter_eq_nil_iff]
      intro inner hinner
      exact Bool.eq_false_iff.1 (hlater inner hinner)
    rw [List.filter_append, hnone, List.append_nil, List.filter_map]
    rfl
  rw [Body.nestedSpans, Body.nestedSpans, hfilter, List.map_map]
  congr 1
  apply List.map_congr_left
  intro inner hinner
  have hend : (b.extend more).endLine starts' = b.endLine starts := hline b hb
  have hend' : (inner.extend more).endLine starts' = inner.endLine starts :=
    hline inner (List.mem_of_mem_filter hinner)
  simp only [Function.comp_apply, hend, hend']
  rfl

/-- The class of a body is told alike in a longer text whose masking goes on with more, if all
further bodies come behind the shorter text. -/
theorem classInfo_extend {s t more : List Char} (hmask : mask (s ++ t) = mask s ++ more)
    (file : Path) {later : List Body} {b : Body} (hb : b ∈ bodiesOf (mask s))
    (hlater : ∀ inner ∈ later, inner.Behind (mask s)) :
    Body.classInfo file (Text.lineStarts (mask (s ++ t))).toArray (Text.lines (s ++ t)).toArray
        ((bodiesOf (mask s)).map (·.extend more) ++ later) (b.extend more) =
      Body.classInfo file (Text.lineStarts (mask s)).toArray (Text.lines s).toArray
        (bodiesOf (mask s)) b := by
  have hin := isIn_of_mem_bodiesOf hb
  have hline : ∀ b ∈ bodiesOf (mask s),
      b.endLine (Text.lineStarts (mask (s ++ t))).toArray =
        b.endLine (Text.lineStarts (mask s)).toArray := by
    intro b hb
    have hle := Nat.le_of_lt (isIn_of_mem_bodiesOf hb).close_lt
    rw [Body.endLine, Body.endLine, hmask, Text.lineOf_lineStarts, Text.lineOf_lineStarts,
      Text.lineAt_append_of_le hle]
  have hend : (b.extend more).endLine (Text.lineStarts (mask (s ++ t))).toArray =
      b.endLine (Text.lineStarts (mask s)).toArray := hline b hb
  -- A body behind the text cannot end before one inside it does.
  have hspans := @nestedSpans_extend _ _ _ later b more hline hb <| by
    intro inner hinner
    have hopening := (hlater inner hinner).opening
    have hclose := (hlater inner hinner).opening_lt_close
    have hlt := hin.close_lt
    simp only [Body.encloses, Bool.and_eq_false_iff, decide_eq_false_iff_not]
    exact Or.inr (by omega)
  have hcloses : StandsIn s ['\x7d'] b.close (b.endLine (Text.lineStarts (mask s)).toArray) :=
    @standsIn_close file s b hin
  have hloc : ∀ first nested, countLoc (Text.lines (s ++ t)).toArray first
        (b.endLine (Text.lineStarts (mask s)).toArray) nested =
      countLoc (Text.lines s).toArray first (b.endLine (Text.lineStarts (mask s)).toArray)
        nested := by
    have hin' : (b.extend more).IsIn (mask (s ++ t)) := by
      rw [hmask]
      exact hin.extend more
    have hcloses' := @standsIn_close file (s ++ t) (b.extend more) hin'
    rw [endLine_classOf, ← Text.lineOf_lineStarts] at hcloses'
    have hcloses' : StandsIn (s ++ t) ['\x7d'] b.close
        (b.endLine (Text.lineStarts (mask s)).toArray) := hend ▸ hcloses'
    exact hcloses.countLoc_append hcloses' ⟨'\x7d', List.mem_cons_self, by decide⟩
  have hmembers : countMembers (b.opening.extend more) b.close =
      countMembers b.opening b.close := by
    obtain ⟨rest, hopen⟩ := hin.opens
    have hlt := hin.close_lt
    rw [← hin.opening.offset_le] at hlt
    exact countMembers_extend hopen (Nat.le_of_lt hlt) more
  rw [Body.classInfo, Body.classInfo, hend, hspans]
  simp only [Body.extend, Declaration.extend]
  rw [hloc, hmembers]

section Append
variable {s : List Char} (hlast : s.getLast? = some '\n') (hmodes : modesAfter s = [.code])
include hlast hmodes

/-- Behind a script of closed classes any text leaves its classes as they are. -/
theorem analyzeText_append (file : Path) (hdangling : NoneDangling (mask s))
    (hwarn : (analyzeText file s).warnings = []) (t : List Char) :
    ∃ more, (analyzeText file (s ++ t)).classes = (analyzeText file s).classes ++ more ∧
      ∀ c ∈ more, (Text.lines s).length < c.startLine := by
  have hclosed : ∀ d ∈ declarations (mask s), ∃ b, bodyOf (matchBraces (mask s)) d = .ok b := by
    intro d hd
    simp only [analyzeText, List.filterMap_map, List.filterMap_eq_nil_iff] at hwarn
    have hnone := hwarn d hd
    cases hb : bodyOf (matchBraces (mask s)) d with
    | ok b => exact ⟨b, rfl⟩
    | error e => simp [hb] at hnone
  obtain ⟨later, hbodies, hlater⟩ :=
    bodiesOf_append (getLast?_mask hlast) hdangling hclosed (mask t)
  rw [← mask_append hlast hmodes] at hbodies
  rw [classes_analyzeText, classes_analyzeText, hbodies, List.map_append, List.map_map]
  refine ⟨_, congrArg (· ++ _) ?_, fun c hc => ?_⟩
  · apply List.map_congr_left
    intro b hb
    exact classInfo_extend (mask_append hlast hmodes t) file hb hlater
  · obtain ⟨b, hb, rfl⟩ := List.mem_map.1 hc
    have hline := (hlater b hb).line
    rw [count_newline_mask, ← Text.length_lines hlast] at hline
    exact hline

end Append

/-- Appending to a file whose classes are all closed never changes the classes in it. -/
theorem analyze_append (path : Path) (language : Language) (s t : String)
    (hsize : (s ++ t).utf8ByteSize ≤ maxScanBytes) (hlast : s.toList.getLast? = some '\n')
    (hmodes : modesAfter s.toList = [.code]) (hdangling : NoneDangling (mask s.toList))
    (hwarn : (analyze ⟨path, language, s⟩).warnings = []) :
    ∃ more, (analyze ⟨path, language, s ++ t⟩).classes =
        (analyze ⟨path, language, s⟩).classes ++ more ∧
      ∀ c ∈ more, (Text.lines s.toList).length < c.startLine := by
  have hshort : s.utf8ByteSize ≤ maxScanBytes := by
    rw [String.utf8ByteSize_append] at hsize
    omega
  have hfirst := @analyze_of_size_le ⟨path, language, s⟩ hshort
  have hboth := @analyze_of_size_le ⟨path, language, s ++ t⟩ hsize
  rw [String.toList_append] at hboth
  rw [hfirst] at hwarn
  rw [hfirst, hboth]
  exact analyzeText_append hlast hmodes path hdangling hwarn t.toList

def closedScript : String := "class A \x7b\n  B = class \x7b\n  \x7d\n\x7d\n// \x7d\n"

def unbalancedScript : String := "\x7d \x7d \x7b class C \x7b m() \x7b\x7d \x7d\n"

theorem analyze_closedScript_append :
    ∃ more, (analyze ⟨⟨"/a.js"⟩, .javaScript, closedScript ++ unbalancedScript⟩).classes =
        (analyze ⟨⟨"/a.js"⟩, .javaScript, closedScript⟩).classes ++ more ∧
      ∀ c ∈ more, (Text.lines closedScript.toList).length < c.startLine := by
  have hsize : closedScript.utf8ByteSize ≤ maxScanBytes := by decide +kernel
  have hwarn : (analyze ⟨⟨"/a.js"⟩, .javaScript, closedScript⟩).warnings = [] := by
    rw [analyze_of_size_le hsize, (analyzeText_extents _ _).warnings]
    decide +kernel
  exact analyze_append ⟨"/a.js"⟩ .javaScript closedScript unbalancedScript (by decide +kernel)
    (by decide +kernel) (by decide +kernel) (by decide +kernel) hwarn

end CodeAtlas.Script
