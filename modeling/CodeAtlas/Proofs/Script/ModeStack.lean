import CodeAtlas.Proofs.Script.Layout

/-!
# The stack of modes

A scan goes step by step, from the text as a whole to nothing left. At each step the modes are in
order: code is at the bottom and nowhere else, interpolations stand right on templates, and nothing
stands on a comment or a string. One step keeps this, so it holds all along the scan.
-/
namespace CodeAtlas.Script

/-- Where the scan of a text may stand: the modes, what is written so far and what is left. -/
inductive ScansTo (source : List Char) : List Mode → List Char → List Char → Prop
  | start : ScansTo source [.code] [] source
  | step {modes : List Mode} {written : List Char} {c : Char} {rest : List Char}
      (h : ScansTo source modes written (c :: rest)) :
      ScansTo source (step modes c rest.head?).modes
        (written ++ (step modes c rest.head?).written)
        (if (step modes c rest.head?).takesNext then rest.tail else rest)

def Mode.isPlain : Mode → Bool
  | .lineComment | .blockComment | .string _ => true
  | _ => false

structure Stacked (modes : List Mode) : Prop where
  ne_nil : modes ≠ []
  code_iff : ∀ {i : Nat}, modes[i]? = some .code ↔ i + 1 = modes.length
  template_below : ∀ {i depth : Nat},
    modes[i]? = some (.interpolation depth) → modes[i + 1]? = some .template
  plain_top : ∀ {i : Nat} {m : Mode}, modes[i]? = some m → m.isPlain = true → i = 0

/-! ### One step -/

theorem stacked_code : Stacked [.code] where
  ne_nil := by simp
  code_iff := by
    intro i
    cases i <;> simp
  template_below := by
    intro i depth hi
    cases i <;> simp at hi
  plain_top := by
    intro i m hi hm
    cases i with
    | zero => rfl
    | succ i => simp at hi

section Stacked
variable {m : Mode} {outer : List Mode}

theorem Stacked.pop (h : Stacked (m :: outer)) (hm : m ≠ .code) : Stacked outer where
  ne_nil := by
    rintro rfl
    have hbottom : [m][0]? = some .code := h.code_iff.2 rfl
    exact hm (Option.some.inj hbottom)
  code_iff := by
    intro i
    have hi := h.code_iff (i := i + 1)
    rw [List.getElem?_cons_succ, List.length_cons] at hi
    rw [hi]
    omega
  template_below := by
    intro i depth hi
    exact h.template_below (i := i + 1) hi
  plain_top := by
    intro i n hi hn
    have := h.plain_top (i := i + 1) hi hn
    omega

theorem Stacked.push {modes : List Mode} (h : Stacked modes) (hm : m ≠ .code)
    (hplain : ∀ n ∈ modes.head?, n.isPlain = false)
    (htemplate : ∀ depth, m = .interpolation depth → modes.head? = some .template) :
    Stacked (m :: modes) where
  ne_nil := by simp
  code_iff := by
    intro i
    cases i with
    | zero =>
      have hpos := List.length_pos_iff.2 h.ne_nil
      simp only [List.getElem?_cons_zero, Option.some.injEq, hm, List.length_cons, false_iff]
      omega
    | succ i =>
      rw [List.getElem?_cons_succ, h.code_iff, List.length_cons]
      omega
  template_below := by
    intro i depth hi
    cases i with
    | zero =>
      rw [List.getElem?_cons_succ, ← List.head?_eq_getElem?]
      exact htemplate depth (Option.some.inj hi)
    | succ i => exact h.template_below hi
  plain_top := by
    intro i n hi hn
    cases i with
    | zero => rfl
    | succ i =>
      -- What was on top is no comment or string, and nothing below it was one.
      rw [List.getElem?_cons_succ] at hi
      obtain rfl := h.plain_top hi hn
      rw [hplain n (List.head?_eq_getElem? ▸ hi)] at hn
      simp at hn

theorem Stacked.brace (h : Stacked (m :: outer)) (c : Char) : Stacked (Mode.brace (m :: outer) c) := by
  unfold Mode.brace
  split
  next depth outer' he =>
    obtain ⟨rfl, rfl⟩ := List.cons_eq_cons.1 he
    have houter := h.pop (by simp)
    have htemplate : outer.head? = some .template := by
      rw [List.head?_eq_getElem?]
      exact h.template_below (i := 0) rfl
    have hagain : ∀ depth, Stacked (.interpolation depth :: outer) := fun depth => by
      refine houter.push (by simp) (fun n hn => ?_) fun _ _ => htemplate
      rw [htemplate, Option.mem_some_iff] at hn
      rw [← hn]
      rfl
    split_ifs
    · exact hagain _
    · exact houter
    · exact hagain _
  · exact h

/-- In code, what begins is a comment, a string or a template. -/
theorem Stacked.stepCode (h : Stacked (m :: outer)) (hm : m.readsCode = true) (c : Char)
    (next : Option Char) : Stacked (stepCode (m :: outer) c next).modes := by
  have hpush : ∀ n : Mode, n ≠ .code → n.readsCode = false → Stacked (n :: m :: outer) := by
    intro n hcode hreads
    refine h.push hcode (fun k hk => ?_) fun depth hn => ?_
    · obtain rfl : m = k := Option.some.inj hk
      cases m <;> simp_all [Mode.readsCode, Mode.isPlain]
    · simp [hn, Mode.readsCode] at hreads
  unfold Script.stepCode
  dsimp only
  split_ifs
  · exact hpush .lineComment (by simp) rfl
  · exact hpush .blockComment (by simp) rfl
  · exact hpush (.string c) (by simp) rfl
  · exact hpush .template (by simp) rfl
  · exact h.brace c
  · exact h

/-- A step keeps the modes in order. -/
theorem Stacked.step {modes : List Mode} (h : Stacked modes) (c : Char) (next : Option Char) :
    Stacked (step modes c next).modes := by
  cases modes with
  | nil => exact absurd rfl h.ne_nil
  | cons m outer =>
    cases m with
    | code => exact h.stepCode rfl c next
    | interpolation depth => exact h.stepCode rfl c next
    | lineComment =>
      have houter := h.pop (by simp)
      simp only [Script.step]
      split_ifs
      · exact houter
      · exact h
    | blockComment =>
      have houter := h.pop (by simp)
      simp only [Script.step]
      split_ifs
      · exact houter
      · exact h
    | string quote =>
      have houter := h.pop (by simp)
      simp only [Script.step, stepEscape]
      split_ifs
      · exact h
      · exact houter
      · exact houter
      · exact h
    | template =>
      have houter := h.pop (by simp)
      have hinside : Stacked (.interpolation 0 :: .template :: outer) := by
        refine h.push (by simp) (fun n hn => ?_) fun _ _ => rfl
        obtain rfl : Mode.template = n := Option.some.inj hn
        rfl
      simp only [Script.step, stepEscape]
      split_ifs
      · exact h
      · exact hinside
      · exact houter
      · exact h

end Stacked

/-! ### The whole scan -/

/-- What is written from a place of the text on: what a step writes, and what is written behind
the characters that the step deals with. -/
theorem scan_step (modes : List Mode) (c : Char) (rest : List Char) :
    scan modes (c :: rest) = (step modes c rest.head?).written ++
      scan (step modes c rest.head?).modes
        (if (step modes c rest.head?).takesNext then rest.tail else rest) := by
  cases htakes : (step modes c rest.head?).takesNext with
  | false => exact scan_cons (step_eq rfl htakes)
  | true =>
    cases rest with
    | nil => simp [scan, maskFrom]
    | cons next rest => exact scan_cons_cons rest (step_eq rfl htakes)

namespace ScansTo
variable {source : List Char} {modes : List Mode} {written rest : List Char}

theorem stacked (h : ScansTo source modes written rest) : Stacked modes := by
  induction h with
  | start => exact stacked_code
  | step _ ih => exact ih.step _ _

/-- Wherever the scan stands, it has written the beginning of the masked text. -/
theorem mask_eq (h : ScansTo source modes written rest) :
    mask source = written ++ scan modes rest := by
  induction h with
  | start => rfl
  | step _ ih => rw [ih, scan_step, List.append_assoc]

theorem exists_end (h : ScansTo source modes written rest) :
    ∃ modes', ScansTo source modes' (written ++ scan modes rest) [] := by
  induction hn : rest.length using Nat.strong_induction_on generalizing modes written rest with
  | h n ih =>
    cases rest with
    | nil => exact ⟨modes, by rwa [scan_nil, List.append_nil]⟩
    | cons c rest =>
      rw [List.length_cons] at hn
      rw [scan_step, ← List.append_assoc]
      refine ih _ ?_ h.step rfl
      have hle := rest.length_tail
      split <;> omega

end ScansTo
end CodeAtlas.Script
