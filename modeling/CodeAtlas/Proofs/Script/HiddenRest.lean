import CodeAtlas.Proofs.Script.Layout

/-!
# Text that is hidden up to its end

Masking may end inside a comment or a template that is never closed. Then there is one mark, the
last that was met in code, behind which all the text is hidden, whatever strings, comments and
templates are open inside of a template in the end.
-/
namespace CodeAtlas.Script

/-! ### Modes in which nothing shows -/

/-- Whether the text that is read is hidden until a mark is met: by a comment that `*/` ends, or by
a template with whatever is open inside of it. -/
def Hiding (modes : List Mode) : Prop :=
  modes = [.blockComment, .code] ∨ [.template, .code] <:+ modes

/-- Whether the scan is in code, or in a comment or string that a line feed ends. -/
def Showing (modes : List Mode) : Prop :=
  modes = [.code] ∨ modes = [.lineComment, .code] ∨ ∃ quote, modes = [.string quote, .code]

/-- A mark, met in code that shows, which begins what may hide all the rest. -/
inductive MarkAt : List Mode → Char → Option Char → Prop
  | comment : MarkAt [.code] '/' (some '*')
  | template (next : Option Char) : MarkAt [.code] '\x60' next

def Step.StaysInside (s : Step) (c : Char) : Prop :=
  [.template, .code] <:+ s.modes ∧ (s.takesNext = false → s.written = blank c)

section Step
variable {m : Mode} {modes outer : List Mode} {c : Char} {next : Option Char}

theorem inTemplate_of_suffix (h : [.template, .code] <:+ outer) : inTemplate outer = true := by
  have hmem : Mode.template ∈ outer := h.subset (by simp)
  simpa [inTemplate] using hmem

theorem suffix_brace (h : [.template, .code] <:+ outer) :
    [.template, .code] <:+ Mode.brace (m :: outer) c := by
  have hcons : ∀ m', [.template, .code] <:+ m' :: outer := fun m' => h.trans (List.suffix_cons m' _)
  unfold Mode.brace
  split
  next depth outer' he =>
    obtain ⟨rfl, rfl⟩ := List.cons_eq_cons.1 he
    split_ifs
    · exact hcons _
    · exact h
    · exact hcons _
  · exact hcons m

theorem stepCode_staysInside (hm : m.readsCode = true) (h : [.template, .code] <:+ outer) :
    (stepCode (m :: outer) c next).StaysInside c := by
  have hhidden : inTemplate (m :: outer) = true :=
    (inTemplate_cons hm).trans (inTemplate_of_suffix h)
  have hsame : [.template, .code] <:+ m :: outer := h.trans (List.suffix_cons m _)
  have hpush : ∀ m', [.template, .code] <:+ m' :: m :: outer := fun m' =>
    hsame.trans (List.suffix_cons m' _)
  unfold stepCode
  simp only [hhidden, shown, if_true]
  split_ifs
  · exact ⟨hpush _, by simp⟩
  · exact ⟨hpush _, by simp⟩
  · exact ⟨hpush _, fun _ => rfl⟩
  · exact ⟨hpush _, fun _ => rfl⟩
  · exact ⟨suffix_brace h, fun _ => rfl⟩
  · exact ⟨hsame, fun _ => rfl⟩

/-- Whatever is open inside a template, a step does not leave the template. -/
theorem step_staysInside (h : [.template, .code] <:+ outer) :
    (step (m :: outer) c next).StaysInside c := by
  have hin := inTemplate_of_suffix h
  have hsame : [.template, .code] <:+ m :: outer := h.trans (List.suffix_cons m _)
  cases m with
  | code => exact stepCode_staysInside rfl h
  | interpolation depth => exact stepCode_staysInside rfl h
  | lineComment =>
    simp only [step]
    split_ifs
    · exact ⟨h, fun _ => rfl⟩
    · exact ⟨hsame, fun _ => rfl⟩
  | blockComment =>
    simp only [step]
    split_ifs
    · exact ⟨h, by simp⟩
    · exact ⟨hsame, fun _ => rfl⟩
  | string quote =>
    simp only [step, stepEscape]
    split_ifs with hescape hquote hend
    · exact ⟨hsame, by simp⟩
    · exact ⟨h, by simp [hin, shown]⟩
    · exact ⟨h, by simp [hend, blank]⟩
    · exact ⟨hsame, fun _ => rfl⟩
  | template =>
    simp only [step, stepEscape]
    split_ifs
    · exact ⟨hsame, by simp⟩
    · exact ⟨hsame.trans (List.suffix_cons _ _), by simp⟩
    · exact ⟨h, by simp [hin, shown]⟩
    · exact ⟨hsame, fun _ => rfl⟩

/-- What hides the text goes on hiding it, or ends and leaves the scan in code. -/
theorem step_hiding (h : Hiding modes) :
    (Hiding (step modes c next).modes ∧
      ((step modes c next).takesNext = false → (step modes c next).written = blank c)) ∨
    (step modes c next).modes = [.code] := by
  rcases h with rfl | h
  · simp only [step]
    split_ifs
    · exact Or.inr rfl
    · exact Or.inl ⟨Or.inl rfl, fun _ => rfl⟩
  · cases modes with
    | nil => simp at h
    | cons m outer =>
      rcases List.suffix_cons_iff.1 h with he | houter
      · obtain ⟨rfl, rfl⟩ := List.cons_eq_cons.1 he
        simp only [step, stepEscape]
        split_ifs
        · exact Or.inl ⟨Or.inr h, by simp⟩
        · exact Or.inl ⟨Or.inr (List.suffix_cons _ _), by simp⟩
        · exact Or.inr rfl
        · exact Or.inl ⟨Or.inr h, fun _ => rfl⟩
      · have hinside := @step_staysInside m outer c next houter
        exact Or.inl ⟨Or.inr hinside.1, hinside.2⟩

/-- Text that shows goes on to show until a mark begins what may hide all the rest. -/
theorem step_showing (h : Showing modes) :
    Showing (step modes c next).modes ∨ MarkAt modes c next := by
  rcases h with rfl | rfl | ⟨quote, rfl⟩
  · have hcode : inTemplate [.code] = false := by decide
    rw [step_eq_stepCode rfl, stepCode, hcode]
    split_ifs with hline hblock hquote htemplate hbrace
    · exact Or.inl (Or.inr (Or.inl rfl))
    · obtain ⟨rfl, rfl⟩ : c = '/' ∧ next = some '*' := by simpa using hblock
      exact Or.inr .comment
    · exact Or.inl (Or.inr (Or.inr ⟨c, rfl⟩))
    · rw [htemplate]
      exact Or.inr (.template next)
    · simp at hbrace
    · exact Or.inl (Or.inl rfl)
  · simp only [step]
    split_ifs
    · exact Or.inl (Or.inl rfl)
    · exact Or.inl (Or.inr (Or.inl rfl))
  · have hstring : Showing [.string quote, .code] := Or.inr (Or.inr ⟨quote, rfl⟩)
    simp only [step, stepEscape]
    split_ifs
    · exact Or.inl hstring
    · exact Or.inl (Or.inl rfl)
    · exact Or.inl (Or.inl rfl)
    · exact Or.inl hstring

theorem Showing.not_hiding (h : Showing modes) : ¬ Hiding modes := by
  rcases h with rfl | rfl | ⟨quote, rfl⟩ <;> simp [Hiding, List.suffix_cons_iff]

theorem step_comment :
    step [.code] '/' (some '*') = ⟨[.blockComment, .code], [' ', ' '], true⟩ := rfl

theorem step_template (next : Option Char) :
    step [.code] '\x60' next = ⟨[.template, .code], ['\x60'], false⟩ := by
  simp [step, stepCode, shown, inTemplate]

theorem step_sound (h : Hiding modes ∨ Showing modes) :
    Hiding (step modes c next).modes ∨ Showing (step modes c next).modes := by
  rcases h with h | h
  · rcases @step_hiding modes c next h with ⟨hhiding, -⟩ | hcode
    · exact Or.inl hhiding
    · exact Or.inr (Or.inl hcode)
  · rcases @step_showing modes c next h with hshowing | hmark
    · exact Or.inr hshowing
    · cases hmark with
      | comment => exact Or.inl (Or.inl rfl)
      | template => exact Or.inl (Or.inr (by rw [step_template]))

/-- A step comes to where text is hidden from there, or from code that shows by a mark. -/
theorem step_into_hiding (hmodes : Hiding modes ∨ Showing modes)
    (h : Hiding (step modes c next).modes) :
    (Hiding modes ∧
      ((step modes c next).takesNext = false → (step modes c next).written = blank c)) ∨
    MarkAt modes c next := by
  rcases hmodes with hmodes | hmodes
  · rcases step_hiding hmodes with ⟨-, hwritten⟩ | hcode
    · exact Or.inl ⟨hmodes, hwritten⟩
    · exact absurd h (Showing.not_hiding (Or.inl hcode))
  · rcases step_showing hmodes with hshowing | hmark
    · exact absurd h hshowing.not_hiding
    · exact Or.inr hmark

/-- A step that deals with one character does not depend on the character after it. -/
theorem step_none {next : Char} (h : (step modes c (some next)).takesNext = false) :
    step modes c none = step modes c (some next) := by
  revert h
  unfold step
  split
  · simp
  · split_ifs <;> simp_all
  · simp only [stepEscape]
    split_ifs <;> simp
  · simp only [stepEscape]
    split_ifs <;> simp_all
  · simp only [stepCode]
    split_ifs <;> simp_all

end Step

/-! ### The mark behind which all is hidden -/

theorem modesFrom_cons {modes modes' : List Mode} {c : Char} {rest written : List Char}
    (h : step modes c rest.head? = ⟨modes', written, false⟩) :
    modesFrom modes (c :: rest) = modesFrom modes' rest := by
  cases rest with
  | nil =>
    have h : step modes c none = ⟨modes', written, false⟩ := h
    simp [modesFrom, h]
  | cons next rest =>
    have h : step modes c (some next) = ⟨modes', written, false⟩ := h
    rw [modesFrom, h, if_neg (by simp)]

theorem modesFrom_cons_cons {modes modes' : List Mode} {c next : Char} {written : List Char}
    (rest : List Char) (h : step modes c (some next) = ⟨modes', written, true⟩) :
    modesFrom modes (c :: next :: rest) = modesFrom modes' rest := by
  rw [modesFrom, h, if_pos rfl]

/-- The marks that begin what may hide all the rest, with the modes behind them. -/
def Opens (mark : List Char) (modes : List Mode) : Prop :=
  (mark = ['/', '*'] ∧ modes = [.blockComment, .code]) ∨
    (mark = ['\x60'] ∧ modes = [.template, .code])

/-- The text is cut where the scan, for the last time, leaves code that shows: nothing of the rest
behind the mark shows. -/
structure HiddenRest (modes : List Mode) (text seen mark hidden : List Char) : Prop where
  text_eq : text = seen ++ mark ++ hidden
  modes_seen : modesFrom modes seen = [.code]
  opens : Opens mark (modesFrom modes (seen ++ mark))
  scan_eq : scan modes text = scan modes (seen ++ mark) ++ blanks hidden

section HiddenRest
variable {modes modes' : List Mode} {text seen mark hidden written : List Char} {c : Char}

theorem step_head?_of_isPrefix {cs ds : List Char} (hp : ds <+: cs)
    (h : step modes c cs.head? = ⟨modes', written, false⟩) :
    step modes c ds.head? = ⟨modes', written, false⟩ := by
  cases ds with
  | nil =>
    cases cs with
    | nil => exact h
    | cons next cs => exact (step_none (congrArg Step.takesNext h)).trans h
  | cons d ds =>
    obtain ⟨rest, rfl⟩ := hp
    exact h

theorem HiddenRest.cons (h : HiddenRest modes' text seen mark hidden)
    (hstep : step modes c text.head? = ⟨modes', written, false⟩) :
    HiddenRest modes (c :: text) (c :: seen) mark hidden := by
  have hmarked : step modes c (seen ++ mark).head? = ⟨modes', written, false⟩ :=
    step_head?_of_isPrefix ⟨hidden, h.text_eq.symm⟩ hstep
  have hseen : step modes c seen.head? = ⟨modes', written, false⟩ :=
    step_head?_of_isPrefix (List.prefix_append seen mark) hmarked
  exact {
    text_eq := by simp [h.text_eq]
    modes_seen := (modesFrom_cons hseen).trans h.modes_seen
    opens := by
      rw [List.cons_append, modesFrom_cons hmarked]
      exact h.opens
    scan_eq := by
      rw [List.cons_append, scan_cons hstep, scan_cons hmarked, h.scan_eq, List.append_assoc] }

theorem HiddenRest.cons_cons {next : Char} (h : HiddenRest modes' text seen mark hidden)
    (hstep : step modes c (some next) = ⟨modes', written, true⟩) :
    HiddenRest modes (c :: next :: text) (c :: next :: seen) mark hidden where
  text_eq := by simp [h.text_eq]
  modes_seen := (modesFrom_cons_cons _ hstep).trans h.modes_seen
  opens := by
    rw [List.cons_append, List.cons_append, modesFrom_cons_cons _ hstep]
    exact h.opens
  scan_eq := by
    rw [List.cons_append, List.cons_append, scan_cons_cons _ hstep, scan_cons_cons _ hstep,
      h.scan_eq, List.append_assoc]

theorem hiddenRest_comment (hscan : scan [.blockComment, .code] text = blanks text) :
    HiddenRest [.code] ('/' :: '*' :: text) [] ['/', '*'] text where
  text_eq := rfl
  modes_seen := rfl
  opens := Or.inl ⟨rfl, modesFrom_cons_cons [] step_comment⟩
  scan_eq := by
    rw [scan_cons_cons text step_comment, List.nil_append, scan_cons_cons [] step_comment, hscan,
      scan_nil, List.append_nil]

theorem hiddenRest_template (hscan : scan [.template, .code] text = blanks text) :
    HiddenRest [.code] ('\x60' :: text) [] ['\x60'] text where
  text_eq := rfl
  modes_seen := rfl
  opens := Or.inr ⟨rfl, modesFrom_cons (step_template none)⟩
  scan_eq := by
    rw [scan_cons (step_template _), List.nil_append, scan_cons (step_template _), hscan, scan_nil,
      List.append_nil]

end HiddenRest

/-- A text that ends hidden was so from the start, or there is a mark that hides its rest. -/
theorem hiddenRest_of_hiding {modes : List Mode} {cs : List Char}
    (hmodes : Hiding modes ∨ Showing modes) (hend : Hiding (modesFrom modes cs)) :
    (Hiding modes ∧ scan modes cs = blanks cs) ∨
      ∃ seen mark hidden, HiddenRest modes cs seen mark hidden := by
  induction modes, cs using modesFrom.induct with
  | case1 modes => exact Or.inl ⟨hend, scan_nil modes⟩
  | case2 modes c =>
    rcases step_into_hiding hmodes hend with ⟨hhiding, hwritten⟩ | hmark
    · refine Or.inl ⟨hhiding, ?_⟩
      have hblank : (step modes c none).written = blank c := by
        cases ht : (step modes c none).takesNext with
        | true => simpa using step_written_of_takesNext ht
        | false => exact hwritten ht
      simp [scan, maskFrom, hblank]
    · cases hmark
      exact Or.inr ⟨_, _, _, hiddenRest_template (scan_nil _)⟩
  | case3 modes c next rest s ht ih =>
    have hs : step modes c (some next) = ⟨s.modes, s.written, true⟩ := step_eq rfl ht
    rw [modesFrom_cons_cons rest hs] at hend
    rcases ih (step_sound hmodes) hend with ⟨hhiding, hscan⟩ | ⟨seen, mark, hidden, hrest⟩
    · rcases step_into_hiding hmodes hhiding with ⟨hbefore, -⟩ | hmark
      · refine Or.inl ⟨hbefore, ?_⟩
        have hwritten : s.written = blank c ++ blank next := step_written_of_takesNext ht
        rw [scan_cons_cons rest hs, hscan, hwritten, List.append_assoc]
        rfl
      · cases hmark with
        | comment => exact Or.inr ⟨_, _, _, hiddenRest_comment hscan⟩
        | template => simp [s, step_template] at ht
    · exact Or.inr ⟨_, _, _, hrest.cons_cons hs⟩
  | case4 modes c next rest s ht ih =>
    have ht := Bool.eq_false_iff.2 ht
    have hs : step modes c (next :: rest).head? = ⟨s.modes, s.written, false⟩ := step_eq rfl ht
    rw [modesFrom_cons hs] at hend
    rcases ih (step_sound hmodes) hend with ⟨hhiding, hscan⟩ | ⟨seen, mark, hidden, hrest⟩
    · rcases step_into_hiding hmodes hhiding with ⟨hbefore, hwritten⟩ | hmark
      · refine Or.inl ⟨hbefore, ?_⟩
        have hblank : s.written = blank c := hwritten ht
        rw [scan_cons hs, hscan, hblank]
        rfl
      · cases hmark with
        | comment => simp [s, step_comment] at ht
        | template =>
          have hmodes : s.modes = [.template, .code] := congrArg Step.modes (step_template _)
          rw [hmodes] at hscan
          exact Or.inr ⟨_, _, _, hiddenRest_template hscan⟩
    · exact Or.inr ⟨_, _, _, hrest.cons hs⟩

theorem modesFrom_sound {modes : List Mode} (h : Hiding modes ∨ Showing modes) (cs : List Char) :
    Hiding (modesFrom modes cs) ∨ Showing (modesFrom modes cs) := by
  induction modes, cs using modesFrom.induct with
  | case1 modes => exact h
  | case2 modes c => exact step_sound h
  | case3 modes c next rest s ht ih =>
    rw [modesFrom, if_pos ht]
    exact ih (step_sound h)
  | case4 modes c next rest s ht ih =>
    rw [modesFrom, if_neg ht]
    exact ih (step_sound h)

/-- Whether masking ends inside a comment that `*/` should end, or inside a template. -/
def EndsHidden (text : List Char) : Prop :=
  .blockComment ∈ modesAfter text ∨ .template ∈ modesAfter text

instance (text : List Char) : Decidable (EndsHidden text) :=
  inferInstanceAs (Decidable (_ ∨ _))

/-- A text that ends hidden has a mark behind which all of it is hidden. -/
theorem EndsHidden.exists_hiddenRest {text : List Char} (h : EndsHidden text) :
    ∃ seen mark hidden, HiddenRest [.code] text seen mark hidden := by
  have hcode : Showing [.code] := Or.inl rfl
  have hend : Hiding (modesAfter text) := by
    rcases modesFrom_sound (Or.inr hcode) text with hhiding | hshowing
    · exact hhiding
    · rw [← modesAfter] at hshowing
      rcases hshowing with he | he | ⟨quote, he⟩ <;> simp [EndsHidden, he] at h
  rcases hiddenRest_of_hiding (Or.inr hcode) hend with ⟨hhiding, -⟩ | hrest
  · exact absurd hhiding hcode.not_hiding
  · exact hrest

end CodeAtlas.Script
