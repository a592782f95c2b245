import CodeAtlas.Proofs.Script.Lexical

/-!
# Masking follows the grammar

The scan writes a script item by item. The stack of modes is the same after an item as before it:
what an item pushes it takes off again, and in an interpolation only the depth on top changes, by
the braces of the code right there.
-/
namespace CodeAtlas.Script

def scan (modes : List Mode) (cs : List Char) : List Char := maskFrom modes [] cs

theorem maskFrom_eq (modes : List Mode) (out cs : List Char) :
    maskFrom modes out cs = out.reverse ++ scan modes cs := by
  unfold scan
  suffices h : ∀ out, maskFrom modes out cs = out.reverse ++ maskFrom modes [] cs from h out
  induction modes, out, cs using maskFrom.induct with
  | case1 => simp [maskFrom]
  | case2 => simp [maskFrom]
  | case3 modes out c next rest s _ ht ih =>
    intro out
    rw [maskFrom, maskFrom, if_pos ht, if_pos ht, ih, ih (_ ++ [])]
    simp
  | case4 modes out c next rest s _ ht ih =>
    intro out
    rw [maskFrom, maskFrom, if_neg ht, if_neg ht, ih, ih (_ ++ [])]
    simp

theorem scan_nil (modes : List Mode) : scan modes [] = [] := by simp [scan, maskFrom]

theorem scan_cons {modes modes' : List Mode} {c : Char} {rest written : List Char}
    (h : step modes c rest.head? = ⟨modes', written, false⟩) :
    scan modes (c :: rest) = written ++ scan modes' rest := by
  cases rest with
  | nil =>
    have h : step modes c none = ⟨modes', written, false⟩ := h
    simp [scan, maskFrom, h]
  | cons next rest =>
    have h : step modes c (some next) = ⟨modes', written, false⟩ := h
    rw [scan, maskFrom, h, if_neg (by simp), maskFrom_eq]
    simp

theorem scan_cons_cons {modes modes' : List Mode} {c next : Char} {written : List Char}
    (rest : List Char) (h : step modes c (some next) = ⟨modes', written, true⟩) :
    scan modes (c :: next :: rest) = written ++ scan modes' rest := by
  rw [scan, maskFrom, h, if_pos rfl, maskFrom_eq]
  simp

/-! ### Comments and strings -/

section Hidden
variable {outer : List Mode}

theorem scan_lineComment_body {body : List Char} (h : '\n' ∉ body) (rest : List Char) :
    scan (.lineComment :: outer) (body ++ rest) =
      blanks body ++ scan (.lineComment :: outer) rest := by
  induction body with
  | nil => rfl
  | cons c body ih =>
    simp only [List.mem_cons, not_or] at h
    have hstep : step (.lineComment :: outer) c (body ++ rest).head? =
        ⟨.lineComment :: outer, blank c, false⟩ := by simp [step, Ne.symm h.1]
    rw [List.cons_append, scan_cons hstep, ih h.2, blanks_cons, List.append_assoc]

theorem scan_blockComment_body {body : List Char} (h : ¬ ['*', '/'] <:+: body) (rest : List Char) :
    scan (.blockComment :: outer) (body ++ '*' :: rest) =
      blanks body ++ scan (.blockComment :: outer) ('*' :: rest) := by
  induction body with
  | nil => rfl
  | cons c body ih =>
    have hbody : ¬ ['*', '/'] <:+: body := fun hb => h (hb.trans (List.suffix_cons c body).isInfix)
    have hend : ¬ (c = '*' ∧ (body ++ '*' :: rest).head? = some '/') := by
      rintro ⟨rfl, hnext⟩
      cases body with
      | nil => simp at hnext
      | cons next body =>
        obtain rfl : next = '/' := by simpa using hnext
        exact h (List.IsPrefix.isInfix ⟨body, rfl⟩)
    have hstep : step (.blockComment :: outer) c (body ++ '*' :: rest).head? =
        ⟨.blockComment :: outer, blank c, false⟩ := by
      rw [step, if_neg (by simpa using hend)]
    rw [List.cons_append, scan_cons hstep, ih hbody, blanks_cons, List.append_assoc]

theorem scan_pieces {quote : Char} {pieces : List Piece}
    (h : ∀ p ∈ pieces, p.fitsString quote = true) (rest : List Char) :
    scan (.string quote :: outer) (pieces.flatMap Piece.text ++ rest) =
      blanks (pieces.flatMap Piece.text) ++ scan (.string quote :: outer) rest := by
  induction pieces with
  | nil => rfl
  | cons p pieces ih =>
    have ih := ih fun q hq => h q (List.mem_cons_of_mem _ hq)
    have hp := h p (by simp)
    rw [List.flatMap_cons, List.append_assoc, blanks_append, List.append_assoc, ← ih]
    cases p with
    | plain c =>
      obtain ⟨hquote, hescape, hend⟩ := of_decide_eq_true hp
      exact scan_cons (by simp [step, hquote, hescape, hend, Piece.text])
    | escaped c => exact scan_cons_cons _ (by simp [step, stepEscape, Piece.text])

theorem scan_piece {p : Piece} {rest : List Char} (h : p.fitsTemplate rest = true) :
    scan (.template :: outer) (p.text ++ rest) = blanks p.text ++ scan (.template :: outer) rest := by
  cases p with
  | plain c =>
    obtain ⟨hend, hescape, hstart⟩ := of_decide_eq_true h
    refine scan_cons ?_
    rw [step, if_neg hescape, if_neg (by simpa using hstart), if_neg hend]
    simp [Piece.text]
  | escaped c => exact scan_cons_cons _ (by simp [step, stepEscape, Piece.text])

end Hidden

/-! ### Items read by the rules of code -/

def Mode.readsCode : Mode → Bool
  | .code | .interpolation _ => true
  | _ => false

def Item.isBrace : Item → Bool
  | .code c => c = '{' ∨ c = '}'
  | _ => false

/-- What is written for an item: nothing of it shows inside a template. -/
def Item.written (hidden : Bool) (item : Item) : List Char :=
  if hidden then blanks item.text else item.masked

section Code
variable {m : Mode} {outer : List Mode}

theorem step_eq_stepCode (hm : m.readsCode = true) (c : Char) (next : Option Char) :
    step (m :: outer) c next = stepCode (m :: outer) c next := by
  cases m <;> simp_all [Mode.readsCode, step]

theorem inTemplate_cons (hm : m.readsCode = true) : inTemplate (m :: outer) = inTemplate outer := by
  cases m <;> simp_all [Mode.readsCode, inTemplate]

theorem inTemplate_template : inTemplate (.template :: outer) = true := by simp [inTemplate]

theorem scan_code (hm : m.readsCode = true) {c : Char} {rest : List Char}
    (hc : (Item.code c).fits rest = true)
    (hb : inTemplate (m :: outer) = true → (Item.code c).isBrace = false) :
    scan (m :: outer) ((Item.code c).text ++ rest) =
      (Item.code c).written (inTemplate (m :: outer)) ++ scan (m :: outer) rest := by
  obtain ⟨hquote, hslash⟩ := of_decide_eq_true hc
  simp only [List.mem_cons, List.not_mem_nil, or_false, not_or] at hquote
  have hline : ¬ (c = '/' ∧ rest.head? = some '/') := fun h => hslash ⟨h.1, Or.inl h.2⟩
  have hblock : ¬ (c = '/' ∧ rest.head? = some '*') := fun h => hslash ⟨h.1, Or.inr h.2⟩
  have hbrace : ¬ ((c = '{' ∨ c = '}') ∧ inTemplate (m :: outer) = true) := by
    rintro ⟨h, hin⟩
    exact of_decide_eq_false (hb hin) h
  have hstep : step (m :: outer) c rest.head? =
      ⟨m :: outer, shown (inTemplate (m :: outer)) c, false⟩ := by
    rw [step_eq_stepCode hm, stepCode]
    simp only [Bool.and_eq_true, Bool.or_eq_true, decide_eq_true_eq]
    rw [if_neg hline, if_neg hblock, if_neg (by simp [hquote]), if_neg hquote.2.2, if_neg hbrace]
  rw [Item.text, List.singleton_append, scan_cons hstep]
  simp [shown, Item.written, Item.text, Item.masked]

/-- A brace of code in an interpolation changes its depth. -/
theorem scan_brace (hin : inTemplate outer = true) {c : Char}
    (hc : (Item.code c).isBrace = true) {depth depth' : Nat}
    (hd : depthAfter depth [.code c] = some depth') (rest : List Char) :
    scan (.interpolation depth :: outer) ((Item.code c).text ++ rest) =
      blanks (Item.code c).text ++ scan (.interpolation depth' :: outer) rest := by
  have hhidden : inTemplate (.interpolation depth :: outer) = true :=
    (inTemplate_cons rfl).trans hin
  refine scan_cons ?_
  rcases of_decide_eq_true hc with rfl | rfl
  · obtain rfl : depth + 1 = depth' := by simpa [depthAfter] using hd
    simp [step, stepCode, Mode.brace, hhidden, Item.text]
  · have hzero : depth ≠ 0 := by
      rintro rfl
      simp [depthAfter] at hd
    obtain rfl : depth - 1 = depth' := by simpa [depthAfter, hzero] using hd
    simp [step, stepCode, Mode.brace, hhidden, hzero, Item.text]

theorem scan_lineComment (hm : m.readsCode = true) {body : List Char} {ended : Bool}
    {rest : List Char} (h : (Item.lineComment body ended).fits rest = true) :
    scan (m :: outer) ((Item.lineComment body ended).text ++ rest) =
      blanks (Item.lineComment body ended).text ++ scan (m :: outer) rest := by
  obtain ⟨hbody, hend⟩ := of_decide_eq_true h
  have hstart : step (m :: outer) '/' (some '/') =
      ⟨.lineComment :: m :: outer, blanks ['/', '/'], true⟩ := by
    rw [step_eq_stepCode hm]
    rfl
  simp only [Item.text, List.append_assoc, List.cons_append, List.nil_append]
  rw [scan_cons_cons _ hstart, scan_lineComment_body hbody]
  cases ended with
  | true =>
    have hfeed : step (.lineComment :: m :: outer) '\n' rest.head? =
        ⟨m :: outer, blank '\n', false⟩ := by simp [step]
    rw [if_pos rfl, List.singleton_append, scan_cons hfeed]
    simp
  | false =>
    obtain rfl : rest = [] := by simpa using hend
    simp [scan_nil]

theorem scan_blockComment (hm : m.readsCode = true) {body rest : List Char}
    (h : (Item.blockComment body).fits rest = true) :
    scan (m :: outer) ((Item.blockComment body).text ++ rest) =
      blanks (Item.blockComment body).text ++ scan (m :: outer) rest := by
  have hstart : step (m :: outer) '/' (some '*') =
      ⟨.blockComment :: m :: outer, blanks ['/', '*'], true⟩ := by
    rw [step_eq_stepCode hm]
    rfl
  have hend : step (.blockComment :: m :: outer) '*' (some '/') =
      ⟨m :: outer, blanks ['*', '/'], true⟩ := rfl
  simp only [Item.text, List.append_assoc, List.cons_append, List.nil_append]
  rw [scan_cons_cons _ hstart, scan_blockComment_body (of_decide_eq_true h),
    scan_cons_cons _ hend]
  simp

theorem scan_string (hm : m.readsCode = true) {quote closer : Char} {pieces : List Piece}
    {rest : List Char} (h : (Item.string quote pieces closer).fits rest = true) :
    scan (m :: outer) ((Item.string quote pieces closer).text ++ rest) =
      (Item.string quote pieces closer).written (inTemplate (m :: outer)) ++
        scan (m :: outer) rest := by
  obtain ⟨hquote, hpieces, hcloser⟩ := of_decide_eq_true h
  have hquote : quote = '\x22' ∨ quote = '\x27' := by simpa using hquote
  have hstart : ∀ next, step (m :: outer) quote next =
      ⟨.string quote :: m :: outer, shown (inTemplate (m :: outer)) quote, false⟩ := by
    intro next
    rcases hquote with rfl | rfl <;> simp [step_eq_stepCode hm, stepCode]
  have hend : ∀ next, step (.string quote :: m :: outer) closer next =
      ⟨m :: outer, shown (inTemplate (m :: outer)) closer, false⟩ := by
    intro next
    have hcloser : closer = quote ∨ closer = '\n' := by simpa using hcloser
    rcases hcloser with rfl | rfl
    · rcases hquote with rfl | rfl <;> simp [step]
    · rcases hquote with rfl | rfl <;> simp [step, shown, blank]
  simp only [Item.text, List.append_assoc, List.cons_append, List.nil_append]
  rw [scan_cons (hstart _), scan_pieces hpieces, scan_cons (hend _)]
  cases hh : inTemplate (m :: outer) <;>
    simp [Item.written, Item.text, Item.masked, shown]

end Code

/-! ### Nesting -/

theorem depthAfter_cons_of_isBrace {item : Item} (h : item.isBrace = true) (depth : Nat)
    (items : List Item) : depthAfter depth (item :: items) =
      (depthAfter depth [item]).bind fun depth => depthAfter depth items := by
  cases item with
  | code c =>
    rcases of_decide_eq_true h with rfl | rfl
    · simp [depthAfter]
    · by_cases hzero : depth = 0 <;> simp [depthAfter, hzero]
  | _ => simp [Item.isBrace] at h

theorem depthAfter_cons_of_not_isBrace {item : Item} (h : item.isBrace = false) (depth : Nat)
    (items : List Item) : depthAfter depth (item :: items) = depthAfter depth items := by
  cases item with
  | code c =>
    have hc := not_or.1 (of_decide_eq_false h)
    simp [depthAfter, hc]
  | _ => rfl

theorem exists_of_isBrace {item : Item} (h : item.isBrace = true) : ∃ c, item = .code c := by
  cases item with
  | code c => exact ⟨c, rfl⟩
  | _ => simp [Item.isBrace] at h

mutual

/-- An item is written for what it is, and the modes after it are those before it. -/
theorem scan_item {m : Mode} {outer : List Mode} (hm : m.readsCode = true) {rest : List Char} :
    ∀ item : Item, item.fits rest = true →
      (inTemplate (m :: outer) = true → item.isBrace = false) →
      scan (m :: outer) (item.text ++ rest) =
        item.written (inTemplate (m :: outer)) ++ scan (m :: outer) rest
  | .code _, hf, hb => scan_code hm hf hb
  | .lineComment body ended, hf, _ => by
    rw [scan_lineComment hm hf]
    simp [Item.written, Item.masked]
  | .blockComment body, hf, _ => by
    rw [scan_blockComment hm hf]
    simp [Item.written, Item.masked]
  | .string _ _ _, hf, _ => scan_string hm hf
  | .template parts, hf, _ => by
    have hstart : ∀ next, step (m :: outer) '\x60' next =
        ⟨.template :: m :: outer, shown (inTemplate (m :: outer)) '\x60', false⟩ := by
      intro next
      simp [step_eq_stepCode hm, stepCode]
    have hend : ∀ next, step (.template :: m :: outer) '\x60' next =
        ⟨m :: outer, shown (inTemplate (m :: outer)) '\x60', false⟩ := by
      intro next
      simp [step]
    simp only [Item.text, List.append_assoc, List.cons_append, List.nil_append]
    rw [scan_cons (hstart _), scan_parts parts hf, scan_cons (hend _)]
    cases hh : inTemplate (m :: outer) <;>
      simp [Item.written, Item.text, Item.masked, shown]

theorem scan_part {outer : List Mode} {rest : List Char} :
    ∀ part : Part, part.fits rest = true →
      scan (.template :: outer) (part.text ++ rest) =
        blanks part.text ++ scan (.template :: outer) rest
  | .piece _, hf => scan_piece hf
  | .interpolation items, hf => by
    obtain ⟨hitems, hdepth⟩ := of_decide_eq_true hf
    have hstart : step (.template :: outer) '$' (some '{') =
        ⟨.interpolation 0 :: .template :: outer, blanks ['$', '{'], true⟩ := rfl
    have hend : ∀ next, step (.interpolation 0 :: .template :: outer) '}' next =
        ⟨.template :: outer, blank '}', false⟩ := by
      intro next
      simp [step, stepCode, Mode.brace, inTemplate]
    simp only [Part.text, List.append_assoc, List.cons_append, List.nil_append]
    rw [scan_cons_cons _ hstart, scan_items items hitems inTemplate_template hdepth,
      scan_cons (hend _)]
    simp

/-- In an interpolation nothing shows, and the depth on top follows the braces of the code. -/
theorem scan_items {outer : List Mode} {rest : List Char} :
    ∀ items : List Item, itemsFit rest items = true → inTemplate outer = true →
      ∀ {depth depth' : Nat}, depthAfter depth items = some depth' →
      scan (.interpolation depth :: outer) (itemsText items ++ rest) =
        blanks (itemsText items) ++ scan (.interpolation depth' :: outer) rest
  | [], _, _, depth, depth', hd => by
    obtain rfl : depth = depth' := by simpa [depthAfter] using hd
    rfl
  | item :: items, hf, hin, depth, depth', hd => by
    obtain ⟨hitem, hitems⟩ := (Bool.and_eq_true _ _).mp hf
    have hhidden : ∀ d, inTemplate (.interpolation d :: outer) = true := fun d =>
      (inTemplate_cons rfl).trans hin
    rw [itemsText, List.append_assoc, blanks_append, List.append_assoc]
    -- A brace moves the depth on top of the stack, every other item leaves the stack as it is.
    cases hb : item.isBrace with
    | true =>
      rw [depthAfter_cons_of_isBrace hb] at hd
      obtain ⟨d, hd, hrest⟩ := Option.bind_eq_some_iff.1 hd
      obtain ⟨c, rfl⟩ := exists_of_isBrace hb
      rw [scan_brace hin hb hd, scan_items items hitems hin hrest]
    | false =>
      rw [depthAfter_cons_of_not_isBrace hb] at hd
      rw [scan_item rfl item hitem fun _ => hb, hhidden, scan_items items hitems hin hd]
      rfl

theorem scan_parts {outer : List Mode} {rest : List Char} :
    ∀ parts : List Part, partsFit rest parts = true →
      scan (.template :: outer) (partsText parts ++ rest) =
        blanks (partsText parts) ++ scan (.template :: outer) rest
  | [], _ => rfl
  | part :: parts, hf => by
    obtain ⟨hpart, hparts⟩ := (Bool.and_eq_true _ _).mp hf
    rw [partsText, List.append_assoc, scan_part part hpart, scan_parts parts hparts,
      blanks_append, List.append_assoc]

end

theorem scan_script {items : List Item} (h : itemsFit [] items = true) :
    scan [.code] (itemsText items) = items.flatMap Item.masked := by
  induction items with
  | nil => rfl
  | cons item items ih =>
    obtain ⟨hitem, hitems⟩ := (Bool.and_eq_true _ _).mp h
    rw [List.append_nil] at hitem
    have hcode : inTemplate [.code] = false := rfl
    rw [itemsText, scan_item rfl item hitem (by simp [hcode]), ih hitems, hcode,
      List.flatMap_cons]
    rfl

/-- Masking a script leaves of each item its code and quotes and blanks out the rest. -/
theorem mask_itemsText (items : List Item) (h : isScript items = true) :
    mask (itemsText items) = items.flatMap Item.masked :=
  scan_script h

def nestedScript : List Item :=
  [.code 'a', .template [.piece (.escaped '\x60'), .interpolation [.code '{',
    .string '\x22' [.plain '}', .plain 'é'] '\x22', .template [.interpolation [.code '1']],
    .code '}']], .lineComment ['b'] false]

theorem mask_nestedScript : isScript nestedScript = true ∧
    mask (itemsText nestedScript) = "a\x60                  \x60   ".toList :=
  ⟨by decide, mask_itemsText nestedScript (by decide)⟩

end CodeAtlas.Script
