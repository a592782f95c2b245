import CodeAtlas.Proofs.Script.Nesting

/-!
# Where members are looked for

The scan of a body comes to each of its places with the number of braces that are open there, which
is never less than one. It takes a place for the start of a member only where the brace of the body
is the innermost open one: never in a block inside the body, and never where it does so for
another body.
-/
namespace CodeAtlas.Script

/-! ### The scan -/

def pendingAfter (depth : Nat) (pending : Bool) (c : Char) : Bool :=
  (pending && Text.isPlainBlank c) ||
    (openAfter depth c = 1 && (c = '\n' || c = ';' || c = '}'))

section Members
variable {close offset depth : Nat} {pending : Bool}

theorem memberStartsFrom_step (out : List Place) (c : Char) (cs : List Char) :
    memberStartsFrom close offset depth pending out (c :: cs) =
      if close ≤ offset then out.reverse
      else memberStartsFrom close (offset + c.utf8Size) (openAfter depth c)
        (pendingAfter depth pending c)
        (if pending && !Text.isPlainBlank c then ⟨offset, c :: cs⟩ :: out else out) cs := rfl

theorem memberStartsFrom_eq (out : List Place) (cs : List Char) :
    memberStartsFrom close offset depth pending out cs =
      out.reverse ++ memberStartsFrom close offset depth pending [] cs := by
  induction cs generalizing offset depth pending out with
  | nil => simp [memberStartsFrom]
  | cons c cs ih =>
    rw [memberStartsFrom_step, memberStartsFrom_step]
    split
    · simp
    · split
      · rw [ih, ih [_]]
        simp
      · rw [ih]

theorem memberStartsFrom_cons (c : Char) (cs : List Char) :
    memberStartsFrom close offset depth pending [] (c :: cs) =
      if close ≤ offset then []
      else (if pending && !Text.isPlainBlank c then [⟨offset, c :: cs⟩] else []) ++
        memberStartsFrom close (offset + c.utf8Size) (openAfter depth c)
          (pendingAfter depth pending c) [] cs := by
  rw [memberStartsFrom_step]
  split
  · rfl
  · rw [memberStartsFrom_eq]
    split <;> rfl

theorem exists_memberStartsFrom_run {inner : List Char}
    (h : offset + Text.byteSize inner ≤ close) (cs : List Char) :
    ∃ found pending', memberStartsFrom close offset depth pending [] (inner ++ cs) =
      found ++ memberStartsFrom close (offset + Text.byteSize inner) (openBehind depth inner)
        pending' [] cs := by
  induction inner generalizing offset depth pending with
  | nil => exact ⟨[], pending, rfl⟩
  | cons c inner ih =>
    have hsize := c.utf8Size_pos
    rw [Text.byteSize_cons] at h
    obtain ⟨found, pending', hrun⟩ := @ih (offset + c.utf8Size) (openAfter depth c)
      (pendingAfter depth pending c) (by omega)
    rw [List.cons_append, memberStartsFrom_cons, if_neg (by omega), hrun, Text.byteSize_cons,
      ← Nat.add_assoc, openBehind_cons, ← List.append_assoc]
    exact ⟨_, pending', rfl⟩

/-- A member is awaited only where one brace is open. -/
theorem openAfter_of_pendingAfter {c : Char} (h : pending = true → depth = 1)
    (hc : pendingAfter depth pending c = true) : openAfter depth c = 1 := by
  simp only [pendingAfter, Bool.or_eq_true, Bool.and_eq_true, decide_eq_true_eq] at hc
  rcases hc with ⟨hpending, hblank⟩ | ⟨hone, -⟩
  · have ho : c ≠ '{' := by
      rintro rfl
      exact absurd hblank (by decide)
    have hclose : c ≠ '}' := by
      rintro rfl
      exact absurd hblank (by decide)
    rw [openAfter, if_neg ho, if_neg hclose, h hpending]
  · exact hone

/-- Where a member can start, the scan is at a place before the end with one open brace. -/
theorem exists_of_mem_memberStartsFrom {cs : List Char} {p : Place}
    (h : p ∈ memberStartsFrom close offset depth pending [] cs) :
    ∃ inner, cs = inner ++ p.rest ∧ p.offset = offset + Text.byteSize inner ∧ p.offset < close ∧
      ((pending = true → depth = 1) → openBehind depth inner = 1) := by
  induction cs generalizing offset depth pending with
  | nil => simp [memberStartsFrom] at h
  | cons c cs ih =>
    rw [memberStartsFrom_cons] at h
    split at h
    · simp at h
    next hlt =>
      rcases List.mem_append.1 h with h | h
      · split at h
        next hstart =>
          obtain rfl := List.mem_singleton.1 h
          have hpending : pending = true := by
            rw [Bool.and_eq_true] at hstart
            exact hstart.1
          exact ⟨[], rfl, rfl, Nat.not_le.1 hlt, fun hdepth => hdepth hpending⟩
        · simp at h
      · obtain ⟨inner, rfl, hoffset, hclose, hdepth⟩ := ih h
        refine ⟨c :: inner, rfl, ?_, hclose, fun hone => ?_⟩
        · rw [hoffset, Text.byteSize_cons, Nat.add_assoc]
        · exact hdepth (openAfter_of_pendingAfter hone)

theorem memberStartsFrom_ascending (cs : List Char) :
    (memberStartsFrom close offset depth pending [] cs).Pairwise fun p q =>
      p.offset < q.offset := by
  induction cs generalizing offset depth pending with
  | nil => simp [memberStartsFrom]
  | cons c cs ih =>
    rw [memberStartsFrom_cons]
    split
    · exact List.Pairwise.nil
    · rw [List.pairwise_append]
      refine ⟨?_, ih, fun p hp q hq => ?_⟩
      · split <;> simp
      · have hfirst : p.offset = offset := by
          split at hp
          · rw [List.mem_singleton.1 hp]
          · simp at hp
        obtain ⟨inner, -, hoffset, -, -⟩ := exists_of_mem_memberStartsFrom hq
        have hsize := c.utf8Size_pos
        omega

end Members

/-! ### Bodies -/

/-- Whether the scan of a body counts the open braces, and where it looks for members is right in
the body. -/
structure Body.LooksInside (b : Body) (masked : List Char) : Prop where
  /-- At each place up to the end the scan goes on with a depth that is positive and exact. -/
  depth : ∀ inner rest, b.opening.rest = '{' :: (inner ++ rest) →
    b.opening.offset + 1 + Text.byteSize inner ≤ b.close →
    0 < openBehind 1 inner ∧ openBehind 1 inner + inner.count '}' = 1 + inner.count '{' ∧
    ∃ found pending, memberStarts b.opening b.close = found ++ memberStartsFrom b.close
      (b.opening.offset + 1 + Text.byteSize inner) (openBehind 1 inner) pending [] rest
  isIn : ∀ p ∈ memberStarts b.opening b.close, p.IsIn masked
  between : ∀ p ∈ memberStarts b.opening b.close,
    b.opening.offset < p.offset ∧ p.offset < b.close
  innermost : ∀ p ∈ memberStarts b.opening b.close, b.opening.IsInnermostAt masked p.offset
  /-- No start of a member lies between two braces inside the body. -/
  outside : ∀ p ∈ memberStarts b.opening b.close, ∀ o close,
    (matchBraces masked)[o]? = some close → b.opening.offset < o →
      p.offset ≤ o ∨ close < p.offset
  /-- No place is looked at twice. -/
  ascending : (memberStarts b.opening b.close).Pairwise fun p q => p.offset < q.offset

section Bodies
variable {masked : List Char} {b b' : Body}

/-- What a brace is paired with is its end. -/
theorem exists_isBrace_of_matchBraces {o close : Nat}
    (h : (matchBraces masked)[o]? = some close) :
    ∃ q : Place, q.IsBrace masked ∧ q.offset = o ∧ q.close? = some close := by
  obtain ⟨before, rest, rfl, rfl⟩ := exists_of_matchBraces h
  rw [matchBraces_open] at h
  exact ⟨⟨Text.byteSize before, '{' :: rest⟩, ⟨⟨before, rfl, rfl⟩, rest, rfl⟩, rfl, h⟩

theorem Place.IsInnermostAt.outside {o : Place} {offset n close : Nat}
    (h : o.IsInnermostAt masked offset) (hpair : (matchBraces masked)[n]? = some close)
    (hlt : o.offset < n) : offset ≤ n ∨ close < offset := by
  obtain ⟨q, hq, rfl, hclose⟩ := exists_isBrace_of_matchBraces hpair
  by_contra hinside
  rw [not_or, Nat.not_le, Nat.not_lt] at hinside
  have hopen : q.IsOpenAt offset := by
    refine ⟨hinside.1, fun m hm => ?_⟩
    obtain rfl : close = m := Option.some.inj (hclose.symm.trans hm)
    exact hinside.2
  have hle := h.last q hq hopen
  omega

/-- The start of a member is a place of the body at which one of its braces is open. -/
theorem Body.IsIn.exists_of_mem_memberStarts (h : b.IsIn masked) {p : Place}
    (hp : p ∈ memberStarts b.opening b.close) :
    ∃ inner, b.opening.rest = '{' :: (inner ++ p.rest) ∧
      p.offset = b.opening.offset + 1 + Text.byteSize inner ∧ p.offset < b.close ∧
      openBehind 1 inner = 1 := by
  obtain ⟨rest, hrest⟩ := h.opens
  rw [memberStarts, hrest, List.drop_one, List.tail_cons] at hp
  obtain ⟨inner, rfl, hoffset, hlt, hdepth⟩ := exists_of_mem_memberStartsFrom hp
  exact ⟨inner, hrest, hoffset, hlt, hdepth fun _ => rfl⟩

theorem Body.IsIn.innermost (h : b.IsIn masked) {p : Place}
    (hp : p ∈ memberStarts b.opening b.close) : b.opening.IsInnermostAt masked p.offset := by
  obtain ⟨inner, hrest, hoffset, hlt, hdepth⟩ := h.exists_of_mem_memberStarts hp
  rw [hoffset] at hlt ⊢
  exact h.isBrace.isInnermostAt h.closes hrest (Nat.le_of_lt hlt) hdepth

theorem Body.IsIn.looksInside (h : b.IsIn masked) : b.LooksInside masked where
  depth := by
    intro inner rest hrest hle
    obtain ⟨hpos, hexact, -⟩ := Place.behind_of_close? h.closes hrest hle
    refine ⟨hpos, hexact, ?_⟩
    rw [memberStarts, hrest, List.drop_one, List.tail_cons]
    exact exists_memberStartsFrom_run hle rest
  isIn := by
    intro p hp
    obtain ⟨inner, hrest, hoffset, -, -⟩ := h.exists_of_mem_memberStarts hp
    have hin := h.isBrace.isIn_behind hrest
    rw [← hoffset] at hin
    exact hin
  between := by
    intro p hp
    obtain ⟨inner, -, hoffset, hlt, -⟩ := h.exists_of_mem_memberStarts hp
    exact ⟨by omega, hlt⟩
  innermost := fun p hp => h.innermost hp
  outside := fun p hp o close hpair hlt => (h.innermost hp).outside hpair hlt
  ascending := memberStartsFrom_ascending _

/-- A place has one innermost open brace, so it is looked at for one body alone. -/
theorem Body.IsIn.eq_of_mem_memberStarts (h : b.IsIn masked) (h' : b'.IsIn masked) {p p' : Place}
    (hp : p ∈ memberStarts b.opening b.close) (hp' : p' ∈ memberStarts b'.opening b'.close)
    (he : p.offset = p'.offset) : b.opening = b'.opening ∧ b.close = b'.close := by
  have hinner := h.innermost hp
  have hinner' := h'.innermost hp'
  rw [← he] at hinner'
  have hle := hinner.last b'.opening h'.isBrace hinner'.isOpen
  have hle' := hinner'.last b.opening h.isBrace hinner.isOpen
  have hopening := h.opening.eq_of_offset h'.opening (Nat.le_antisymm hle' hle)
  have hclose := h.closes
  rw [hopening, h'.closes] at hclose
  exact ⟨hopening, (Option.some.inj hclose).symm⟩

end Bodies

/-- The members of each class of a script are looked for right in its body, and bodies that are not
the same share no place that is looked at. -/
theorem members_innermost (file : SourceFile) :
    (analyze file).classes.map (fun c => (c.name, c.startLine, c.methodCount)) =
      (bodiesOf (mask (scanned file))).map (fun b => (b.declaration.name, b.declaration.line,
        (memberStarts b.opening b.close).countP fun p => isFunctionMember (p.window b.close))) ∧
    (∀ b ∈ bodiesOf (mask (scanned file)),
      b.IsIn (mask (scanned file)) ∧ b.LooksInside (mask (scanned file))) ∧
    ∀ b ∈ bodiesOf (mask (scanned file)), ∀ b' ∈ bodiesOf (mask (scanned file)),
      ((b.opening = b'.opening ∧ b.close = b'.close) ∨ b.close < b'.opening.offset ∨
        b'.close < b.opening.offset ∨ b.encloses b' = true ∨ b'.encloses b = true) ∧
      ∀ p ∈ memberStarts b.opening b.close, ∀ p' ∈ memberStarts b'.opening b'.close,
        p.offset = p'.offset → b.opening = b'.opening ∧ b.close = b'.close := by
  refine ⟨?_, fun b hb => ?_, fun b hb b' hb' => ⟨?_, fun p hp p' hp' he => ?_⟩⟩
  · rw [classes_analyze, classes_analyzeText, List.map_map]
    rfl
  · have hin := isIn_of_mem_bodiesOf hb
    exact ⟨hin, hin.looksInside⟩
  · exact (isIn_of_mem_bodiesOf hb).nested (isIn_of_mem_bodiesOf hb')
  · exact (isIn_of_mem_bodiesOf hb).eq_of_mem_memberStarts (isIn_of_mem_bodiesOf hb') hp hp' he

end CodeAtlas.Script
