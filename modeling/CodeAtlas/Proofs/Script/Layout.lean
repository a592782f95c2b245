import CodeAtlas.Proofs.Script.Masking
import CodeAtlas.Proofs.Text.Bytes

/-!
# Masking keeps the layout

Whatever the text, masking leaves each character or puts as many spaces in its place as it has
bytes, and leaves line feeds alone. A text can be masked in two parts if the first ends with a line
feed: the second part is read in the modes that the first one leaves.
-/
namespace CodeAtlas.Script

theorem byteSize_shown (hidden : Bool) (c : Char) : Text.byteSize (shown hidden c) = c.utf8Size := by
  have hspaces : ∀ n, Text.byteSize (List.replicate n ' ') = n := by
    intro n
    induction n with
    | zero => rfl
    | succ n ih =>
      have hsize : ' '.utf8Size = 1 := by decide
      rw [List.replicate_succ, Text.byteSize_cons, ih, hsize, Nat.add_comm]
  cases hidden with
  | false => simp [shown]
  | true =>
    by_cases hc : c = '\n'
    · simp [shown, blank, hc]
    · simp [shown, blank, hc, hspaces]

theorem count_newline_shown (hidden : Bool) (c : Char) :
    (shown hidden c).count '\n' = [c].count '\n' := by
  cases hidden with
  | false => rfl
  | true =>
    by_cases hc : c = '\n'
    · simp [shown, blank, hc]
    · simp [shown, blank, hc, List.count_replicate]

/-- The first text with some of its characters hidden is the second. -/
inductive Veiled : List Char → List Char → Prop
  | nil : Veiled [] []
  | cons (hidden : Bool) (c : Char) {cs ds : List Char} (rest : Veiled cs ds) :
    Veiled (c :: cs) (shown hidden c ++ ds)

theorem Veiled.byteSize_eq {cs ds : List Char} (h : Veiled cs ds) :
    Text.byteSize ds = Text.byteSize cs := by
  induction h with
  | nil => rfl
  | cons hidden c _ ih => rw [Text.byteSize_append, byteSize_shown, Text.byteSize_cons, ih]

theorem Veiled.count_newline {cs ds : List Char} (h : Veiled cs ds) :
    ds.count '\n' = cs.count '\n' := by
  induction h with
  | nil => rfl
  | cons hidden c _ ih =>
    rw [List.count_append, count_newline_shown, ih, ← List.count_append, List.singleton_append]

theorem shown_ne_nil (hidden : Bool) (c : Char) : shown hidden c ≠ [] := by
  intro he
  have hsize := byteSize_shown hidden c
  have := c.utf8Size_pos
  rw [he, Text.byteSize_nil] at hsize
  omega

theorem Veiled.exists_getLast? {cs ds : List Char} (h : Veiled cs ds) {c : Char}
    (hlast : cs.getLast? = some c) : ∃ hidden, ds.getLast? = (shown hidden c).getLast? := by
  induction h with
  | nil => simp at hlast
  | @cons hidden d cs ds rest ih =>
    cases cs with
    | nil =>
      obtain rfl : d = c := by simpa using hlast
      cases rest
      exact ⟨hidden, by rw [List.append_nil]⟩
    | cons d' cs =>
      obtain ⟨hidden', hds⟩ := ih (by simpa using hlast)
      refine ⟨hidden', ?_⟩
      rw [List.getLast?_append, hds, List.getLast?_eq_some_getLast (shown_ne_nil hidden' c)]
      rfl

theorem Veiled.getLast?_newline {cs ds : List Char} (h : Veiled cs ds)
    (hlast : cs.getLast? = some '\n') : ds.getLast? = some '\n' := by
  obtain ⟨hidden, hds⟩ := h.exists_getLast? hlast
  cases hidden <;> simp [hds, shown, blank]

theorem Veiled.eq_nil {cs : List Char} (h : Veiled cs []) : cs = [] := by
  have hsize := h.byteSize_eq.symm
  cases cs with
  | nil => rfl
  | cons c cs =>
    have := c.utf8Size_pos
    rw [Text.byteSize_cons, Text.byteSize_nil] at hsize
    omega

/-- Whether the character is of no kind that takes the place of a hidden one. -/
def IsInk (c : Char) : Prop := c ≠ ' ' ∧ c ≠ '\n'

instance (c : Char) : Decidable (IsInk c) := inferInstanceAs (Decidable (_ ∧ _))

theorem eq_of_mem_shown {hidden : Bool} {c d : Char} (hd : IsInk d) (h : d ∈ shown hidden c) :
    hidden = false ∧ d = c := by
  cases hidden with
  | false => exact ⟨rfl, List.mem_singleton.1 h⟩
  | true =>
    simp only [shown, if_true, blank] at h
    split at h
    · exact absurd (List.mem_singleton.1 h) hd.2
    · exact absurd (List.eq_of_mem_replicate h) hd.1

/-- What is not blank after masking was there before. -/
theorem Veiled.exists_of_ink {cs ds es : List Char} {d : Char} (hd : IsInk d)
    (h : Veiled cs (ds ++ d :: es)) :
    ∃ cs₁ cs₂, cs = cs₁ ++ d :: cs₂ ∧ Veiled cs₁ ds ∧ Veiled cs₂ es := by
  generalize hts : ds ++ d :: es = ts at h
  induction h generalizing ds with
  | nil => simp at hts
  | @cons hidden c cs ts rest ih =>
    rcases List.append_eq_append_iff.1 hts with ⟨mid, hmid, he⟩ | ⟨mid, rfl, he⟩
    · cases mid with
      | nil =>
        obtain ⟨cs₁, cs₂, rfl, h₁, h₂⟩ := @ih [] he
        obtain rfl := h₁.eq_nil
        rw [List.append_nil] at hmid
        subst hmid
        have hone := Veiled.cons hidden c .nil
        rw [List.append_nil] at hone
        exact ⟨[c], cs₂, rfl, hone, h₂⟩
      | cons d' mid =>
        obtain ⟨rfl, rfl⟩ := List.cons_eq_cons.1 he
        have hmem : d ∈ shown hidden c := by
          rw [hmid]
          exact List.mem_append_right ds (.head mid)
        obtain ⟨rfl, rfl⟩ := eq_of_mem_shown hd hmem
        obtain ⟨rfl, hone⟩ | ⟨rfl, hone⟩ := List.append_eq_singleton_iff.1 hmid.symm
        · obtain rfl := (List.cons_eq_cons.1 hone).2
          exact ⟨[], cs, rfl, .nil, rest⟩
        · simp at hone
    · obtain ⟨cs₁, cs₂, rfl, h₁, h₂⟩ := @ih mid he.symm
      exact ⟨c :: cs₁, cs₂, rfl, .cons hidden c h₁, h₂⟩

/-- A word that is whole after masking was there before. -/
theorem Veiled.exists_of_word {cs ds word es : List Char} (hw : word ≠ [])
    (hink : ∀ d ∈ word, IsInk d) (h : Veiled cs (ds ++ word ++ es)) :
    ∃ cs₁ cs₂, cs = cs₁ ++ word ++ cs₂ ∧ Veiled cs₁ ds ∧ Veiled cs₂ es := by
  induction word generalizing cs ds with
  | nil => exact absurd rfl hw
  | cons d word ih =>
    rw [List.append_assoc, List.cons_append] at h
    obtain ⟨cs₁, cs₂, rfl, h₁, h₂⟩ := h.exists_of_ink (hink d (.head word))
    cases word with
    | nil => exact ⟨cs₁, cs₂, by simp, h₁, h₂⟩
    | cons d' word =>
      have hrest : Veiled cs₂ ([] ++ d' :: word ++ es) := h₂
      obtain ⟨gap, cs₃, rfl, hgap, h₃⟩ :=
        ih (by simp) (fun c hc => hink c (List.mem_cons_of_mem d hc)) hrest
      obtain rfl := hgap.eq_nil
      exact ⟨cs₁, cs₃, by simp, h₁, h₃⟩

/-! ### What a step writes -/

theorem step_eq {modes : List Mode} {c : Char} {next : Option Char} {written : List Char}
    {takesNext : Bool} (hw : (step modes c next).written = written)
    (ht : (step modes c next).takesNext = takesNext) :
    step modes c next = ⟨(step modes c next).modes, written, takesNext⟩ := by
  rw [← hw, ← ht]

theorem step_written_of_takesNext {modes : List Mode} {c : Char} {next : Option Char}
    (h : (step modes c next).takesNext = true) :
    (step modes c next).written = blank c ++ (next.map blank).getD [] := by
  -- The marks that begin or end a comment or an interpolation are one byte long each.
  have hmark : ∀ a b, c = a ∧ next = some b → a.utf8Size = 1 ∧ b.utf8Size = 1 → a ≠ '\n' →
      b ≠ '\n' → [' ', ' '] = blank c ++ (next.map blank).getD [] := by
    rintro a b ⟨rfl, rfl⟩ ⟨ha, hb⟩ ha' hb'
    simp [blank, ha, hb, ha', hb']
  revert h
  unfold step
  split
  · simp
  · split
    next hc =>
      intro _
      exact hmark '*' '/' (by simpa using hc) (by decide) (by decide) (by decide)
    · simp
  · simp only [stepEscape]
    split_ifs <;> simp
  · simp only [stepEscape]
    split_ifs with hescape hstart hend
    · simp
    · intro _
      exact hmark '$' '{' (by simpa using hstart) (by decide) (by decide) (by decide)
    · simp
    · simp
  · simp only [stepCode]
    split_ifs with hline hblock
    · intro _
      exact hmark '/' '/' (by simpa using hline) (by decide) (by decide) (by decide)
    · intro _
      exact hmark '/' '*' (by simpa using hblock) (by decide) (by decide) (by decide)
    all_goals simp

theorem step_written_of_not_takesNext {modes : List Mode} {c : Char} {next : Option Char}
    (h : (step modes c next).takesNext = false) :
    ∃ hidden, (step modes c next).written = shown hidden c := by
  revert h
  have hblank : ∃ hidden, blank c = shown hidden c := ⟨true, rfl⟩
  unfold step
  split
  · exact fun _ => hblank
  · split
    · simp
    · exact fun _ => hblank
  · simp only [stepEscape]
    split_ifs with hescape hquote hend
    · simp
    · exact fun _ => ⟨_, rfl⟩
    · exact fun _ => ⟨false, by simp [shown, hend]⟩
    · exact fun _ => hblank
  · simp only [stepEscape]
    split_ifs
    · simp
    · simp
    · exact fun _ => ⟨_, rfl⟩
    · exact fun _ => hblank
  · simp only [stepCode]
    split_ifs
    · simp
    · simp
    · exact fun _ => ⟨_, rfl⟩
    · exact fun _ => ⟨_, rfl⟩
    · exact fun _ => hblank
    · exact fun _ => ⟨_, rfl⟩

theorem step_newline (modes : List Mode) (next : Option Char) :
    step modes '\n' next = ⟨(step modes '\n' none).modes, ['\n'], false⟩ := by
  unfold step
  split <;> simp [stepCode, shown, blank]

/-! ### What is left to scan -/

def modesFrom (modes : List Mode) : List Char → List Mode
  | [] => modes
  | [c] => (step modes c none).modes
  | c :: next :: rest =>
    let s := step modes c (some next)
    if s.takesNext then modesFrom s.modes rest else modesFrom s.modes (next :: rest)

def modesAfter (source : List Char) : List Mode := modesFrom [.code] source

theorem veiled_scan (modes : List Mode) (cs : List Char) : Veiled cs (scan modes cs) := by
  induction modes, cs using modesFrom.induct with
  | case1 modes =>
    rw [scan_nil]
    exact .nil
  | case2 modes c =>
    have hwritten : ∃ hidden, (step modes c none).written = shown hidden c := by
      cases ht : (step modes c none).takesNext with
      | true => exact ⟨true, by simp [step_written_of_takesNext ht, shown]⟩
      | false => exact step_written_of_not_takesNext ht
    obtain ⟨hidden, hw⟩ := hwritten
    have hscan : scan modes [c] = shown hidden c ++ [] := by simp [scan, maskFrom, hw]
    rw [hscan]
    exact .cons hidden c .nil
  | case3 modes c next rest s ht ih =>
    have hw := step_written_of_takesNext ht
    rw [scan_cons_cons rest (step_eq hw ht), List.append_assoc]
    exact .cons true c (.cons true next ih)
  | case4 modes c next rest s ht ih =>
    have ht := Bool.eq_false_iff.2 ht
    obtain ⟨hidden, hw⟩ := step_written_of_not_takesNext ht
    have hscan : scan modes (c :: next :: rest) = (step modes c (some next)).written ++
        scan (step modes c (some next)).modes (next :: rest) := scan_cons (step_eq rfl ht)
    rw [hscan, hw]
    exact .cons hidden c ih

/-- A text that is cut behind a line feed is masked part by part. -/
theorem scan_append {cs : List Char} (h : cs = [] ∨ cs.getLast? = some '\n') (modes : List Mode)
    (more : List Char) :
    scan modes (cs ++ more) = scan modes cs ++ scan (modesFrom modes cs) more := by
  induction modes, cs using modesFrom.induct with
  | case1 modes => simp [scan_nil, modesFrom]
  | case2 modes c =>
    obtain rfl : c = '\n' := by simpa using h
    rw [List.singleton_append, scan_cons (step_newline modes more.head?),
      scan_cons (step_newline modes none), scan_nil, modesFrom]
    simp
  | case3 modes c next rest s ht ih =>
    have hrest : rest = [] ∨ rest.getLast? = some '\n' := by
      cases rest with
      | nil => exact Or.inl rfl
      | cons d rest => simpa using h
    have hs : step modes c (some next) = ⟨s.modes, s.written, true⟩ := step_eq rfl ht
    have hmodes : modesFrom modes (c :: next :: rest) = modesFrom s.modes rest := by
      rw [modesFrom, if_pos ht]
    rw [List.cons_append, List.cons_append, scan_cons_cons _ hs, scan_cons_cons _ hs, ih hrest,
      hmodes, List.append_assoc]
  | case4 modes c next rest s ht ih =>
    have hs : step modes c (some next) = ⟨s.modes, s.written, false⟩ :=
      step_eq rfl (Bool.eq_false_iff.2 ht)
    have hmodes : modesFrom modes (c :: next :: rest) = modesFrom s.modes (next :: rest) := by
      rw [modesFrom, if_neg ht]
    have hlong : scan modes (c :: (next :: rest ++ more)) =
        s.written ++ scan s.modes (next :: rest ++ more) := scan_cons hs
    have hshort : scan modes (c :: next :: rest) = s.written ++ scan s.modes (next :: rest) :=
      scan_cons hs
    rw [List.cons_append, hlong, hshort, ih (by simpa using h), hmodes, List.append_assoc]

section Mask
variable (source : List Char)

theorem veiled_mask : Veiled source (mask source) := veiled_scan [.code] source

theorem count_newline_mask : (mask source).count '\n' = source.count '\n' :=
  (veiled_mask source).count_newline

end Mask

theorem getLast?_mask {source : List Char} (h : source.getLast? = some '\n') :
    (mask source).getLast? = some '\n' :=
  (veiled_mask source).getLast?_newline h

/-- What follows a text that ends in code, with a line feed, is masked as if it stood alone. -/
theorem mask_append {source : List Char} (h : source.getLast? = some '\n')
    (hmodes : modesAfter source = [.code]) (more : List Char) :
    mask (source ++ more) = mask source ++ mask more := by
  have hscan := scan_append (Or.inr h) [.code] more
  rw [← modesAfter, hmodes] at hscan
  exact hscan

end CodeAtlas.Script
