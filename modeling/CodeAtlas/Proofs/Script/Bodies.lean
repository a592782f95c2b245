import CodeAtlas.Proofs.Script.Extents

namespace CodeAtlas.Script

def bodiesOf (masked : List Char) : List Body :=
  (declarations masked).filterMap fun d => (bodyOf (matchBraces masked) d).toOption

theorem classes_analyzeText (file : Path) (text : List Char) :
    (analyzeText file text).classes = (bodiesOf (mask text)).map
      (Body.classInfo file (Text.lineStarts (mask text)).toArray (Text.lines text).toArray
        (bodiesOf (mask text))) := by
  simp only [analyzeText, bodiesOf, List.filterMap_map]
  rfl

structure Body.IsIn (b : Body) (masked : List Char) : Prop where
  opening : b.opening.IsIn masked
  opens : ∃ rest, b.opening.rest = '{' :: rest
  closes : b.opening.close? = some b.close

theorem toOption_eq_some {ε α : Type} {x : Except ε α} {a : α} :
    x.toOption = some a ↔ x = .ok a := by
  cases x <;> simp [Except.toOption]

theorem body_isIn {masked : List Char} {d : Declaration} {b : Body} (hin : d.header.IsIn masked)
    (h : bodyOf (matchBraces masked) d = .ok b) : b.IsIn masked := by
  obtain ⟨-, ho, hclose⟩ := (bodyOf_eq_ok hin).1 h
  obtain ⟨hoin, -, hopens⟩ := Place.open?_isIn hin ho
  exact ⟨hoin, hopens, hclose⟩

theorem isIn_of_mem_bodiesOf {masked : List Char} {b : Body} (h : b ∈ bodiesOf masked) :
    b.IsIn masked := by
  obtain ⟨d, hd, hbody⟩ := List.mem_filterMap.1 h
  exact body_isIn (header_isIn hd) (toOption_eq_some.1 hbody)

theorem Body.IsIn.exists_inner {b : Body} {masked : List Char} (h : b.IsIn masked) :
    ∃ before inner rest, masked = before ++ '{' :: inner ++ '}' :: rest ∧
      b.opening.offset = Text.byteSize before ∧
      b.close = Text.byteSize (before ++ '{' :: inner) := by
  obtain ⟨before, hmasked, hoffset⟩ := h.opening
  obtain ⟨after, hopen⟩ := h.opens
  have hclose := h.closes
  rw [Place.close?, hopen, closeFrom?_open] at hclose
  obtain ⟨inner, rest, rfl, hsize⟩ := closeFrom?_eq_some hclose
  have hone : '{'.utf8Size = 1 := by decide
  refine ⟨before, inner, rest, ?_, hoffset, ?_⟩
  · rw [hmasked, hopen, List.append_assoc, List.cons_append]
  · rw [hsize, hoffset, Text.byteSize_append, Text.byteSize_cons, hone]
    omega

theorem Body.IsIn.opening_lt_close {b : Body} {masked : List Char} (h : b.IsIn masked) :
    b.opening.offset < b.close := by
  obtain ⟨before, inner, rest, -, hopening, hclose⟩ := h.exists_inner
  have hone : '{'.utf8Size = 1 := by decide
  rw [hopening, hclose, Text.byteSize_append, Text.byteSize_cons, hone]
  omega

theorem Body.IsIn.close_lt {b : Body} {masked : List Char} (h : b.IsIn masked) :
    b.close < Text.byteSize masked := by
  obtain ⟨before, inner, rest, rfl, -, hclose⟩ := h.exists_inner
  have hone : '}'.utf8Size = 1 := by decide
  rw [hclose, Text.byteSize_append _ ('}' :: rest), Text.byteSize_cons, hone]
  omega

/-! ### What is looked at of a file -/

def scanned (file : SourceFile) : List Char :=
  if file.text.utf8ByteSize ≤ maxScanBytes then file.text.toList
  else Text.takeBytes maxScanBytes file.text.toList

theorem classes_analyze (file : SourceFile) :
    (analyze file).classes = (analyzeText file.path (scanned file)).classes := by
  unfold analyze scanned
  split <;> rfl

end CodeAtlas.Script
