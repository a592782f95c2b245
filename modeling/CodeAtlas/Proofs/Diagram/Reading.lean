import CodeAtlas.Proofs.Diagram.Lines

namespace CodeAtlas

/-- What a line of a diagram does: it begins or ends a box, declares a node, or draws an edge. -/
inductive DiagramLine where
  | header
  | opening (id : String)
  | closing
  | node (id : String)
  | edge (source target : String)
  | click (id : String)
  deriving DecidableEq, Repr

theorem Artifact.map_fst_links_ofLines (kind : DiagramKind) (path : Path) (lines : List String)
    (clicks : List Click) :
    (ofLines kind path lines clicks).links.map (·.1) = clicks.map (·.id) := by
  rw [ofLines, List.map_map]
  rfl

namespace DiagramLine

/-- A word ends before a blank or a label. -/
def isWordChar (c : Char) : Bool := c ≠ ' ' && c ≠ '['

def firstWord (cs : List Char) : String := String.ofList (cs.takeWhile isWordChar)

def behindWord (cs : List Char) : List Char := cs.dropWhile isWordChar

def readWords (cs : List Char) : DiagramLine :=
  let first := firstWord cs
  if first = "graph" then .header
  else if first = "subgraph" then .opening (firstWord ((behindWord cs).drop 1))
  else if first = "end" then .closing
  else if first = "click" then .click (firstWord ((behindWord cs).drop 1))
  else if " --> ".toList.isPrefixOf (behindWord cs) then
    .edge first (firstWord ((behindWord cs).drop 5))
  else .node first

def read (line : String) : DiagramLine := readWords (line.toList.dropWhile (· = ' '))

def readAll (text : String) : List DiagramLine :=
  (Text.fields '\n' text.toList).map fun cs => read (String.ofList cs)

def node? : DiagramLine → Option String
  | node id => some id
  | _ => none

def opening? : DiagramLine → Option String
  | opening id => some id
  | _ => none

/-! ### Words -/

/-- Whether a text is a word by itself and none that a line begins with for another purpose. -/
structure IsId (s : String) : Prop where
  isWord : s.toList.all isWordChar = true
  ne_keyword : s ∉ ["", "graph", "subgraph", "end", "click"]

theorem isWordChar_of_isDigit {c : Char} (h : c.isDigit = true) : isWordChar c = true := by
  have hblank : c ≠ ' ' := by
    rintro rfl
    exact absurd h (by decide)
  have hlabel : c ≠ '[' := by
    rintro rfl
    exact absurd h (by decide)
  simp [isWordChar, hblank, hlabel]

theorem isWordChar_of_mem_toString {n : Nat} {c : Char} (h : c ∈ (toString n).toList) :
    isWordChar c = true := by
  have hmem : c ∈ Nat.toDigits 10 n := Nat.toList_repr ▸ h
  exact isWordChar_of_isDigit (Nat.isDigit_of_mem_toDigits (by decide) (Nat.le_refl 10) hmem)

theorem isId_moduleText (n : Nat) : IsId (IdSupply.moduleText n) where
  isWord := by
    refine List.all_eq_true.2 fun c hc => ?_
    rw [IdSupply.moduleText, String.toList_append] at hc
    rcases List.mem_append.1 hc with hc | hc
    · rw [List.mem_singleton.1 hc]
      decide
    · exact isWordChar_of_mem_toString hc
  ne_keyword := by
    intro hmem
    have hhead := List.mem_map_of_mem (f := fun s : String => s.toList.head?) hmem
    simp [IdSupply.moduleText] at hhead

theorem isId_classText (module file n : Nat) : IsId (IdSupply.classText module file n) where
  isWord := by
    refine List.all_eq_true.2 fun c hc => ?_
    simp only [IdSupply.classText, String.toList_append, List.mem_append] at hc
    obtain ((((hc | hc) | hc) | hc) | hc) | hc := hc
    · rw [List.mem_singleton.1 hc]
      decide
    · exact isWordChar_of_mem_toString hc
    · rw [List.mem_singleton.1 hc]
      decide
    · exact isWordChar_of_mem_toString hc
    · rw [List.mem_singleton.1 hc]
      decide
    · exact isWordChar_of_mem_toString hc
  ne_keyword := by
    -- An underscore tells the id from all of them.
    intro hmem
    have hunderscore : '_' ∈ (IdSupply.classText module file n).toList := by
      simp [IdSupply.classText]
    have hnone : ∀ s ∈ ["", "graph", "subgraph", "end", "click"], '_' ∉ s.toList := by decide
    exact hnone _ hmem hunderscore

/-- A word is read up to where it ends, and the rest is left. -/
theorem firstWord_append {w : String} (hw : w.toList.all isWordChar = true)
    {rest : List Char} (hrest : ∀ c ∈ rest.head?, isWordChar c = false) :
    firstWord (w.toList ++ rest) = w ∧ behindWord (w.toList ++ rest) = rest := by
  rw [List.all_eq_true] at hw
  rw [firstWord, behindWord, List.takeWhile_append_of_pos hw, List.dropWhile_append_of_pos hw]
  cases rest with
  | nil => simp
  | cons c rest =>
    have hc := hrest c rfl
    rw [List.takeWhile_cons_of_neg (by simp [hc]), List.dropWhile_cons_of_neg (by simp [hc]),
      List.append_nil, String.ofList_toList]
    exact ⟨rfl, rfl⟩

theorem IsId.firstWord_append_quoted {id : String} (h : IsId id) (label : String) :
    firstWord (id.toList ++ (quoted label).toList) = id ∧
      behindWord (id.toList ++ (quoted label).toList) = (quoted label).toList :=
  firstWord_append h.isWord (by simp [quoted, isWordChar])

theorem read_append {blanks s : String} (hb : ∀ c ∈ blanks.toList, c = ' ')
    (hs : ∀ c ∈ s.toList.head?, c ≠ ' ') : read (blanks ++ s) = readWords s.toList := by
  rw [read, String.toList_append,
    List.dropWhile_append_of_pos fun c hc => decide_eq_true (hb c hc)]
  cases hcs : s.toList with
  | nil => rfl
  | cons c cs =>
    rw [hcs] at hs
    rw [List.dropWhile_cons_of_neg (by simpa using hs c rfl)]

theorem firstWord_keyword {w : String} (hw : w.toList.all isWordChar = true) (cs : List Char) :
    firstWord (w.toList ++ ' ' :: cs) = w ∧ behindWord (w.toList ++ ' ' :: cs) = ' ' :: cs :=
  firstWord_append hw (by simp [isWordChar])

theorem IsId.readWords_eq {id : String} (h : IsId id) {cs : List Char}
    (hfirst : firstWord cs = id) : readWords cs =
      if " --> ".toList.isPrefixOf (behindWord cs) then
        .edge id (firstWord ((behindWord cs).drop 5))
      else .node id := by
  have hne := h.ne_keyword
  simp only [List.mem_cons, List.not_mem_nil, or_false, not_or] at hne
  obtain ⟨-, hgraph, hsubgraph, hend, hclick⟩ := hne
  rw [readWords, hfirst, if_neg hgraph, if_neg hsubgraph, if_neg hend, if_neg hclick]

theorem IsId.head?_append_ne {id : String} (h : IsId id) (s : String) :
    ∀ c ∈ (id ++ s).toList.head?, c ≠ ' ' := by
  intro c hc
  obtain ⟨first, rest, hid⟩ := List.exists_cons_of_ne_nil (l := id.toList) (by
    intro he
    exact h.ne_keyword (by simp [String.toList_eq_nil_iff.1 he]))
  rw [String.toList_append, hid, List.cons_append, List.head?_cons] at hc
  obtain rfl := Option.some.inj hc
  rintro rfl
  exact absurd (List.all_eq_true.1 h.isWord ' ' (hid ▸ List.mem_cons_self)) (by decide)

theorem eq_blank_of_mem_indent {depth : Nat} {c : Char}
    (h : c ∈ (ClassGraph.indent depth).toList) : c = ' ' := by
  rw [ClassGraph.indent, String.toList_ofList] at h
  exact List.eq_of_mem_replicate h

/-! ### Lines -/

theorem read_header (direction : Direction) : read (diagramHeader direction) = .header := by
  cases direction <;> decide

theorem read_opening (depth : Nat) {id : String} (h : IsId id) (label : String) :
    read (ClassGraph.indent depth ++ "subgraph " ++ id ++ quoted label) = .opening id := by
  have hkeyword : "subgraph".toList.all isWordChar = true := by decide
  obtain ⟨hfirst, hbehind⟩ := firstWord_keyword hkeyword (id.toList ++ (quoted label).toList)
  obtain ⟨hid, -⟩ := h.firstWord_append_quoted label
  have htext : ("subgraph " ++ (id ++ quoted label)).toList =
      "subgraph".toList ++ ' ' :: (id.toList ++ (quoted label).toList) := by
    simp
  rw [String.append_assoc, String.append_assoc, read_append (fun _ => eq_blank_of_mem_indent)
    (by simp), htext, readWords, hfirst, hbehind, List.drop_one, List.tail_cons, hid]
  rfl

theorem read_closing (depth : Nat) : read (ClassGraph.indent depth ++ "end") = .closing := by
  rw [read_append (fun _ => eq_blank_of_mem_indent) (by simp)]
  decide

theorem read_node (depth : Nat) {id : String} (h : IsId id) (label : String) :
    read (ClassGraph.indent depth ++ id ++ quoted label) = .node id := by
  obtain ⟨hfirst, hbehind⟩ := h.firstWord_append_quoted label
  rw [String.append_assoc, read_append (fun _ => eq_blank_of_mem_indent) (h.head?_append_ne _),
    String.toList_append, h.readWords_eq hfirst, hbehind, if_neg]
  simp [quoted]

theorem read_edge {source target : String} (hsource : IsId source) (htarget : IsId target) :
    read ("    " ++ source ++ " --> " ++ target) = .edge source target := by
  have hindent : "    " = ClassGraph.indent 1 := by decide
  have htext : (source ++ (" --> " ++ target)).toList =
      source.toList ++ ' ' :: ("--> ".toList ++ target.toList) := by
    simp
  obtain ⟨hfirst, hbehind⟩ := firstWord_keyword hsource.isWord ("--> ".toList ++ target.toList)
  have hlast : firstWord target.toList = target := by
    have hword := (firstWord_append htarget.isWord (by simp : ∀ c ∈ ([] : List Char).head?, _)).1
    rwa [List.append_nil] at hword
  rw [hindent, String.append_assoc, String.append_assoc,
    read_append (fun _ => eq_blank_of_mem_indent) (hsource.head?_append_ne _), htext,
    hsource.readWords_eq hfirst, hbehind, if_pos (by simp)]
  exact congrArg (edge source) hlast

theorem read_click {c : Click} (h : IsId c.id) : read c.line = .click c.id := by
  have hkeyword : "click".toList.all isWordChar = true := by decide
  -- What the click shows does not matter.
  obtain ⟨shown, hshown⟩ : ∃ shown, shown = "\"" ++ c.link ++ "\" \"" ++ c.tip ++ "\"" :=
    ⟨_, rfl⟩
  have hline : c.line = ClassGraph.indent 1 ++ ("click " ++ (c.id ++ (" " ++ shown))) := by
    change "    click " ++ c.id ++ " \"" ++ c.link ++ "\" \"" ++ c.tip ++ "\"" = _
    apply String.toList_inj.1
    simp [hshown, ClassGraph.indent, List.replicate]
  have htext : ("click " ++ (c.id ++ (" " ++ shown))).toList =
      "click".toList ++ ' ' :: (c.id.toList ++ ' ' :: shown.toList) := by
    simp
  obtain ⟨hfirst, hbehind⟩ := firstWord_keyword hkeyword (c.id.toList ++ ' ' :: shown.toList)
  obtain ⟨hid, -⟩ := firstWord_keyword h.isWord shown.toList
  rw [hline, read_append (fun _ => eq_blank_of_mem_indent) (by simp), htext, readWords, hfirst,
    hbehind, List.drop_one, List.tail_cons, hid]
  rfl

theorem readAll_eq (text : String) : readAll text = (Text.rawLines text).map read := by
  rw [readAll, Text.rawLines, List.map_map]
  rfl

theorem read_clicks {clicks : List Click} (h : ∀ click ∈ clicks, IsId click.id) :
    (clicks.map Click.line).map read = (clicks.map (·.id)).map .click := by
  rw [List.map_map, List.map_map]
  apply List.map_congr_left
  intro click hclick
  rw [Function.comp_apply, Function.comp_apply, read_click (h click hclick)]

theorem readAll_ofLines (kind : DiagramKind) (path : Path) {lines : List String}
    {clicks : List Click} (hne : lines ≠ []) (hlines : ∀ line ∈ lines, OneLine line)
    (hclicks : ∀ click ∈ clicks, click.Inline) :
    readAll (Artifact.ofLines kind path lines clicks).diagram =
      (lines ++ clicks.map Click.line).map read := by
  rw [readAll_eq]
  exact congrArg (List.map read) (Artifact.lines_ofLines kind path hne hlines hclicks)

end DiagramLine

theorem WrittenClick.isId {t : ModuleTree} {moduleFile : String} {ids : IdSupply} {document : Path}
    {c : Click} (h : WrittenClick t moduleFile ids document c) : DiagramLine.IsId c.id := by
  cases h with
  | ofModule => exact DiagramLine.isId_moduleText _
  | ofClass => exact DiagramLine.isId_classText _ _ _

end CodeAtlas
