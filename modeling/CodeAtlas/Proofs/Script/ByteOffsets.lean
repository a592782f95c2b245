import CodeAtlas.Proofs.Script.MemberBytes
import CodeAtlas.Proofs.Script.WholeWords

/-!
# The analysis by byte offsets

An analysis that goes by byte offsets gives nothing at all if it cuts a text at an offset where it
cannot be cut, asks for what a list does not have, or subtracts too much. None of this comes to
pass: whatever the text of a file, the analysis by offsets gives what the analysis gives.
-/
namespace CodeAtlas.Script
open Text

/-! ### Masking -/

/-- What a brace does to the modes, if no depth goes below zero by it. -/
def Mode.brace? (modes : List Mode) (c : Char) : Option (List Mode) :=
  match modes with
  | .interpolation depth :: outer =>
    if c = '{' then some (.interpolation (depth + 1) :: outer)
    else if depth = 0 then some outer
    else (sub? depth 1).map fun depth => .interpolation depth :: outer
  | _ => some modes

def stepCode? (modes : List Mode) (c : Char) (next : Option Char) : Option Step :=
  if (c = '{' || c = '}') && inTemplate modes then
    (Mode.brace? modes c).map fun inner => ⟨inner, blank c, false⟩
  else some (stepCode modes c next)

def step? (modes : List Mode) (c : Char) (next : Option Char) : Option Step :=
  match modes with
  | .lineComment :: _ | .blockComment :: _ | .string _ :: _ | .template :: _ =>
    some (step modes c next)
  | _ => stepCode? modes c next

def maskFrom? (modes : List Mode) (out : List Char) : List Char → Option (List Char)
  | [] => some out.reverse
  | [c] => (step? modes c none).map fun s => (s.written.reverse ++ out).reverse
  | c :: next :: rest =>
    match step? modes c (some next) with
    | none => none
    | some s =>
      let out := s.written.reverse ++ out
      if s.takesNext then maskFrom? s.modes out rest else maskFrom? s.modes out (next :: rest)

def mask? (source : List Char) : Option (List Char) := maskFrom? [.code] [] source

theorem sub?_of_le {m n : Nat} (h : n ≤ m) : sub? m n = some (m - n) := if_pos h

theorem Mode.brace?_interpolation (depth : Nat) (outer : List Mode) (c : Char) :
    Mode.brace? (.interpolation depth :: outer) c =
      some (Mode.brace (.interpolation depth :: outer) c) := by
  rw [Mode.brace?, Mode.brace]
  split
  · rfl
  · split
    · rfl
    next hdepth => rw [sub?_of_le (Nat.pos_of_ne_zero hdepth), Option.map_some]

theorem Mode.brace?_eq (modes : List Mode) (c : Char) :
    Mode.brace? modes c = some (Mode.brace modes c) := by
  cases modes with
  | nil => rfl
  | cons m outer =>
    cases m with
    | interpolation depth => exact Mode.brace?_interpolation depth outer c
    | _ => rfl

theorem stepCode_brace {modes : List Mode} {c : Char} (hc : c = '{' ∨ c = '}')
    (h : inTemplate modes = true) (next : Option Char) :
    stepCode modes c next = ⟨Mode.brace modes c, blank c, false⟩ := by
  rcases hc with rfl | rfl <;> simp [stepCode, h]

theorem stepCode?_eq (modes : List Mode) (c : Char) (next : Option Char) :
    stepCode? modes c next = some (stepCode modes c next) := by
  unfold stepCode?
  split
  next hbrace =>
    rw [Bool.and_eq_true, Bool.or_eq_true, decide_eq_true_eq, decide_eq_true_eq] at hbrace
    rw [stepCode_brace hbrace.1 hbrace.2, Mode.brace?_eq, Option.map_some]
  · rfl

theorem step?_eq (modes : List Mode) (c : Char) (next : Option Char) :
    step? modes c next = some (step modes c next) := by
  cases modes with
  | nil => exact stepCode?_eq [] c next
  | cons m outer =>
    cases m with
    | code => exact stepCode?_eq _ c next
    | interpolation => exact stepCode?_eq _ c next
    | _ => rfl

theorem maskFrom?_eq (modes : List Mode) (out cs : List Char) :
    maskFrom? modes out cs = some (maskFrom modes out cs) := by
  induction modes, out, cs using maskFrom.induct with
  | case1 => rfl
  | case2 => rw [maskFrom?, step?_eq, maskFrom, Option.map_some]
  | case3 modes out c next rest s out' htakes ih =>
    rw [maskFrom?, step?_eq, maskFrom]
    dsimp only
    rw [if_pos htakes, if_pos htakes, ih]
  | case4 modes out c next rest s out' htakes ih =>
    rw [maskFrom?, step?_eq, maskFrom]
    dsimp only
    rw [if_neg htakes, if_neg htakes, ih]

theorem mask?_eq (source : List Char) : mask? source = some (mask source) := maskFrom?_eq _ _ _

/-! ### Declarations -/

def keywordOffsets (offset : Nat) (insideWord : Bool) : List Char → List Nat
  | [] => []
  | c :: cs =>
    (if keyword <+: c :: cs ∧ insideWord = false ∧ startsInsideWord ((c :: cs).drop 5) = false then
      [offset] else []) ++ keywordOffsets (offset + c.utf8Size) (isWordChar c) cs

/-- The line of an offset, by a search that gives zero if it finds none. -/
def line? (starts : Array Nat) (offset : Nat) : Option Nat :=
  if lineOf starts offset = 0 then none else some (lineOf starts offset)

def declarationBy? (masked : List Char) (starts : Array Nat) (start : Nat) :
    Option (Option Declaration) := do
  let before ← before? masked start
  let rest ← behind? masked (start + 5)
  if before.getLast?.any isMemberMark || !(trimStart rest).head?.any fun c => !endsName c then
    return none
  let line ← line? starts start
  let row ← sub? line 1
  let lineStart ← starts[row]?
  let lineBefore ← slice? masked lineStart start
  let d := declarationOf line lineBefore.reverse ⟨start + 5, rest⟩
  let behindHeader ← behind? masked d.header.offset
  return some { d with header := ⟨d.header.offset, behindHeader⟩ }

def declarations? (masked : List Char) (starts : Array Nat) : Option (List Declaration) := do
  let found ← (keywordOffsets 0 false masked).mapM (declarationBy? masked starts)
  return found.filterMap id

theorem getElem?_lineStartsFrom (offset : Nat) (before behind : List Char) :
    (lineStartsFrom offset [] (before ++ '\n' :: behind))[before.count '\n']? =
      some (offset + byteSize before + 1) := by
  have hone : '\n'.utf8Size = 1 := by decide
  induction before generalizing offset with
  | nil => rw [List.nil_append, lineStartsFrom_cons, if_pos rfl, hone]; rfl
  | cons c before ih =>
    have hrest := ih (offset + c.utf8Size)
    rw [List.cons_append, lineStartsFrom_cons, byteSize_cons, ← Nat.add_assoc, ← hrest]
    by_cases hc : c = '\n'
    · rw [if_pos hc, hc, List.count_cons_self]
      rfl
    · rw [if_neg hc, List.count_cons_of_ne hc, List.nil_append]

/-- The line that holds an offset begins at an offset of its own, and the text from there on is what
the scan has seen of the line. -/
theorem exists_lineStart (before behind : List Char) :
    ∃ head, before = head ++ (linePrefix [] before).reverse ∧
      (lineStarts (before ++ behind))[before.count '\n']? = some (byteSize head) := by
  induction before using List.reverseRecOn generalizing behind with
  | nil => exact ⟨[], rfl, by rw [lineStarts_eq]; rfl⟩
  | append_singleton before c ih =>
    rw [linePrefix_concat]
    by_cases hc : c = '\n'
    · have hone : '\n'.utf8Size = 1 := by decide
      refine ⟨before ++ [c], by simp [hc], ?_⟩
      rw [lineStarts_eq, hc, List.append_assoc, List.singleton_append, List.count_append,
        List.count_singleton_self, List.getElem?_cons_succ, getElem?_lineStartsFrom, Nat.zero_add,
        byteSize_concat, hone]
    · obtain ⟨head, hhead, hstart⟩ := ih (c :: behind)
      refine ⟨head, ?_, ?_⟩
      · rw [if_neg hc, List.reverse_cons, ← List.append_assoc, ← hhead]
      · rw [List.append_assoc, List.singleton_append, List.count_append, List.count_singleton,
          if_neg (by simpa using hc), Nat.add_zero, hstart]

theorem Place.IsIn.behind?_eq {p : Place} {text : List Char} (h : p.IsIn text) :
    behind? text p.offset = some p.rest :=
  behind?_eq_some.2 h

section Declarations
variable {masked : List Char}

theorem line?_eq (offset : Nat) :
    line? (lineStarts masked).toArray offset = some (lineAt masked offset) := by
  have hpos := lineAt_pos masked offset
  rw [line?, lineOf_lineStarts, if_neg (by omega)]

/-- The line that holds an offset can be cut out up to the offset. -/
theorem exists_slice?_line {before behind : List Char} (hmasked : masked = before ++ behind) :
    ∃ start, (lineStarts masked).toArray[before.count '\n']? = some start ∧
      slice? masked start (byteSize before) = some (linePrefix [] before).reverse := by
  obtain ⟨head, hhead, hstart⟩ := exists_lineStart before behind
  refine ⟨byteSize head, ?_, ?_⟩
  · rw [List.getElem?_toArray, hmasked, hstart]
  · have hcut := slice?_append head (linePrefix [] before).reverse behind
    rwa [← hhead, ← byteSize_append, ← hhead, ← hmasked] at hcut

theorem sub?_lineAt {before behind : List Char} (hmasked : masked = before ++ behind) :
    sub? (lineAt masked (byteSize before)) 1 = some (before.count '\n') := by
  rw [lineAt, hmasked, takeBytes_byteSize, sub?_of_le (Nat.le_add_left 1 _), Nat.add_sub_cancel]

/-- Of a keyword that is a word only its neighbours are asked. -/
theorem introducesClass_of_word {before rest : List Char}
    (hbefore : startsInsideWord before.reverse = false) (hrest : startsInsideWord rest = false) :
    introducesClass (linePrefix [] before) rest = !(before.getLast?.any isMemberMark ||
      !(trimStart rest).head?.any fun c => !endsName c) := by
  rw [introducesClass, startsInsideWord_linePrefix, hbefore, hrest,
    any_head?_linePrefix (show isMemberMark '\n' = false by decide), Bool.not_or, Bool.not_not]
  rfl

/-- At each keyword all cuts are possible, and they give what the scan has at hand there. -/
theorem declarationBy?_eq {before rest : List Char} (hmasked : masked = before ++ keyword ++ rest)
    (hbefore : startsInsideWord before.reverse = false) (hrest : startsInsideWord rest = false) :
    declarationBy? masked (lineStarts masked).toArray (byteSize before) =
      some (declarationAt? (lineStarts masked).toArray (linePrefix [] before)
        ⟨byteSize before, keyword ++ rest⟩) := by
  have hbehind : masked = before ++ (keyword ++ rest) := by rw [hmasked, List.append_assoc]
  have hend : byteSize before + 5 = byteSize (before ++ keyword) := by
    rw [byteSize_append, byteSize_keyword]
  have hcutBefore : before? masked (byteSize before) = some before := by
    rw [hbehind]
    exact before?_append _ _
  have hcutRest : behind? masked (byteSize before + 5) = some rest := by
    rw [hmasked, hend]
    exact behind?_append _ _
  rw [declarationAt?_keyword, introducesClass_of_word hbefore hrest]
  cases hnone : before.getLast?.any isMemberMark || !(trimStart rest).head?.any fun c => !endsName c with
  | true =>
    simp only [declarationBy?, hcutBefore, hcutRest, hnone, Option.bind_eq_bind, Option.bind_some]
    rfl
  | false =>
    obtain ⟨start, hstart, hslice⟩ := exists_slice?_line hbehind
    have hkeywordEnd : (Place.mk (byteSize before + 5) rest).IsIn masked :=
      ⟨before ++ keyword, hmasked, hend⟩
    have hheader := (@header_declarationOf (lineAt masked (byteSize before)) (linePrefix [] before)
      masked _ hkeywordEnd).1.behind?_eq
    simp only [declarationBy?, hcutBefore, hcutRest, hnone, Option.bind_eq_bind, Option.bind_some,
      line?_eq, sub?_lineAt hbehind, hstart, hslice, List.reverse_reverse, hheader,
      lineOf_lineStarts]
    rfl

/-- Where no keyword stands as a word there is no declaration. -/
theorem declarationAt?_of_not_word {starts : Array Nat} {before cs : List Char}
    (h : ¬ (keyword <+: cs ∧ startsInsideWord before.reverse = false ∧
      startsInsideWord (cs.drop 5) = false)) :
    declarationAt? starts (linePrefix [] before) ⟨byteSize before, cs⟩ = none := by
  by_cases hkeyword : keyword <+: cs
  · obtain ⟨rest, rfl⟩ := hkeyword
    have hinside : ¬ (startsInsideWord (linePrefix [] before) = false ∧
        startsInsideWord rest = false) := by
      rw [startsInsideWord_linePrefix]
      exact fun hwords => h ⟨List.prefix_append _ _, hwords⟩
    rw [declarationAt?_keyword, introducesClass_of_inWord hinside]
    rfl
  · exact declarationAt?_of_not_keyword _ _ hkeyword

/-- The keywords one after another give the declarations of the scan. -/
theorem exists_mapM_keywordOffsets {before cs : List Char} (hmasked : masked = before ++ cs) :
    ∃ found, (keywordOffsets (byteSize before) (startsInsideWord before.reverse) cs).mapM
        (declarationBy? masked (lineStarts masked).toArray) = some found ∧
      found.filterMap id = declarationsFrom (lineStarts masked).toArray (byteSize before)
        (linePrefix [] before) [] cs := by
  induction cs generalizing before with
  | nil => exact ⟨[], rfl, rfl⟩
  | cons c cs ih =>
    obtain ⟨found, hfound, hrest⟩ := @ih (before ++ [c]) (by simp [hmasked])
    rw [byteSize_concat, List.reverse_append, List.reverse_singleton, List.singleton_append] at hfound
    rw [byteSize_concat, linePrefix_concat] at hrest
    rw [keywordOffsets, declarationsFrom_cons, ← hrest]
    split
    next hword =>
      obtain ⟨⟨rest, hkeyword⟩, hbefore, hafter⟩ := hword
      have hsplit : masked = before ++ keyword ++ rest := by
        rw [List.append_assoc, hkeyword, hmasked]
      have hrestWord : startsInsideWord rest = false := by rwa [← hkeyword] at hafter
      have hhere := declarationBy?_eq hsplit hbefore hrestWord
      rw [hkeyword] at hhere
      refine ⟨declarationAt? (lineStarts masked).toArray (linePrefix [] before)
        ⟨byteSize before, c :: cs⟩ :: found, ?_, ?_⟩
      · have hfound := mapM_eq_some.1 hfound
        rw [mapM_eq_some, List.singleton_append, List.map_cons, List.map_cons, hhere]
        exact congrArg _ hfound
      · cases declarationAt? (lineStarts masked).toArray (linePrefix [] before)
          ⟨byteSize before, c :: cs⟩ <;> rfl
    next hword =>
      refine ⟨found, hfound, ?_⟩
      rw [declarationAt?_of_not_word hword]
      rfl

theorem declarations?_eq : declarations? masked (lineStarts masked).toArray =
    some (declarations masked) := by
  obtain ⟨found, hfound, hall⟩ := exists_mapM_keywordOffsets (show masked = [] ++ masked from rfl)
  have hfound : (keywordOffsets 0 false masked).mapM
      (declarationBy? masked (lineStarts masked).toArray) = some found := hfound
  rw [declarations?, hfound]
  exact congrArg some hall

end Declarations

/-! ### The analysis -/

def Body.classInfo? (file : Path) (masked : List Char) (starts : Array Nat)
    (lines : Array (List Char)) (bodies : List Body) (b : Body) : Option ClassInfo := do
  let endLine ← line? starts b.close
  let methodCount ← countMembers? masked b.opening.offset b.close
  return {
    name := b.declaration.name
    file := file
    loc := countLoc lines b.declaration.line endLine (b.nestedSpans starts bodies)
    methodCount := methodCount
    startLine := b.declaration.line
    endLine := endLine }

def analyzeText? (file : Path) (text : List Char) : Option Analysis := do
  let masked ← mask? text
  let starts := (lineStarts masked).toArray
  let ds ← declarations? masked starts
  let found := ds.map fun d => (d, bodyOf (matchBraces masked) d)
  let bodies := found.filterMap fun f => f.2.toOption
  let lines := (Text.lines text).toArray
  let classes ← bodies.mapM (Body.classInfo? file masked starts lines bodies)
  return {
    classes := classes
    warnings := found.filterMap fun f =>
      match f.2 with
      | .ok _ => none
      | .error e => some (.parse file f.1.line (e.message f.1.name)) }

def analyze? (file : SourceFile) : Option Analysis :=
  let text := file.text.toList
  if file.text.utf8ByteSize ≤ maxScanBytes then analyzeText? file.path text
  else do
    let stop ← boundaryBelow? text maxScanBytes
    let beginning ← before? text stop
    let a ← analyzeText? file.path beginning
    return { a with warnings := .parse file.path 1 truncationMessage :: a.warnings }

theorem Body.IsIn.classInfo?_eq {b : Body} {masked : List Char} (h : b.IsIn masked) (file : Path)
    (lines : Array (List Char)) (bodies : List Body) :
    b.classInfo? file masked (lineStarts masked).toArray lines bodies =
      some (b.classInfo file (lineStarts masked).toArray lines bodies) := by
  rw [Body.classInfo?, line?_eq, h.countMembers?_eq, ← lineOf_lineStarts]
  rfl

theorem analyzeText?_eq (file : Path) (text : List Char) :
    analyzeText? file text = some (analyzeText file text) := by
  have hbodies : ((declarations (mask text)).map fun d =>
      (d, bodyOf (matchBraces (mask text)) d)).filterMap (fun f => f.2.toOption) =
        bodiesOf (mask text) := by
    rw [List.filterMap_map]
    rfl
  have hclasses : (bodiesOf (mask text)).mapM (Body.classInfo? file (mask text)
      (lineStarts (mask text)).toArray (Text.lines text).toArray (bodiesOf (mask text))) =
        some (analyzeText file text).classes := by
    rw [classes_analyzeText, mapM_eq_some, List.map_map]
    exact List.map_congr_left fun b hb => (isIn_of_mem_bodiesOf hb).classInfo?_eq _ _ _
  simp only [analyzeText?, mask?_eq, Option.bind_eq_bind, Option.bind_some, declarations?_eq,
    hbodies, hclasses]
  rfl

/-- Whatever the text of a file, long or short, no step of the analysis fails. -/
theorem analyze?_eq (file : SourceFile) : analyze? file = some (analyze file) := by
  unfold analyze? analyze
  split
  · exact analyzeText?_eq _ _
  · have hcut : before? file.text.toList (byteSize (takeBytes maxScanBytes file.text.toList)) =
        some (takeBytes maxScanBytes file.text.toList) := by
      obtain ⟨behind, hbehind⟩ := takeBytes_isPrefix maxScanBytes file.text.toList
      exact before?_eq_some.2 ⟨behind, hbehind.symm, rfl⟩
    dsimp only
    rw [boundaryBelow?_eq, Option.bind_eq_bind, Option.bind_some, hcut, Option.bind_eq_bind,
      Option.bind_some, analyzeText?_eq]
    rfl

end CodeAtlas.Script
