import CodeAtlas.Proofs.Script.Bodies

/-!
# Nested braces

From a brace up to the one that closes it there is always a brace open, so the count of open braces
is exact there. Two pairs of braces are therefore apart or one inside the other, and where the count
is back at one no other brace of the inside is open.
-/
namespace CodeAtlas.Script

/-! ### Counting on -/

def openBehind (depth : Nat) (cs : List Char) : Nat := cs.foldl openAfter depth

section Count
variable {offset depth n : Nat} {cs : List Char}

theorem openBehind_cons (depth : Nat) (c : Char) (cs : List Char) :
    openBehind depth (c :: cs) = openBehind (openAfter depth c) cs := rfl

theorem openAfter_add (hpos : 0 < depth) (k : Nat) (c : Char) :
    openAfter (depth + k) c = openAfter depth c + k := by
  unfold openAfter
  split_ifs <;> omega

theorem openAfter_add_count (hpos : 0 < depth) (c : Char) :
    openAfter depth c + [c].count '}' = depth + [c].count '{' := by
  unfold openAfter
  split_ifs with ho hc
  · subst ho
    rfl
  · subst hc
    have hzero : ['}'].count '{' = 0 := by decide
    rw [hzero, List.count_singleton_self]
    omega
  · rw [List.count_singleton, List.count_singleton, if_neg (by simpa using hc),
      if_neg (by simpa using ho)]

theorem le_of_closeFrom? (h : closeFrom? offset depth cs = some n) : offset ≤ n := by
  induction cs generalizing offset depth with
  | nil => simp [closeFrom?] at h
  | cons c cs ih =>
    rw [closeFrom?] at h
    split at h
    · exact Nat.le_of_eq (Option.some.inj h)
    · have := ih h
      omega

/-- Before the closing brace the count of open braces is positive and exact. -/
theorem closeFrom?_behind {inner : List Char}
    (h : closeFrom? offset depth (inner ++ cs) = some n) (hn : offset + Text.byteSize inner ≤ n)
    (hpos : 0 < depth) :
    0 < openBehind depth inner ∧
      openBehind depth inner + inner.count '}' = depth + inner.count '{' ∧
      closeFrom? (offset + Text.byteSize inner) (openBehind depth inner) cs = some n := by
  induction inner generalizing offset depth with
  | nil => exact ⟨hpos, rfl, h⟩
  | cons c inner ih =>
    have hsize := c.utf8Size_pos
    rw [Text.byteSize_cons] at hn
    rw [List.cons_append, closeFrom?] at h
    split at h
    · have heq : offset = n := Option.some.inj h
      omega
    next hopen =>
      obtain ⟨hdepth, hexact, hclose⟩ := ih h (by omega) (Nat.pos_of_ne_zero hopen)
      have hstep := openAfter_add_count hpos c
      have hcount : ∀ d, (c :: inner).count d = [c].count d + inner.count d := by
        intro d
        rw [← List.count_append, List.singleton_append]
      rw [openBehind_cons, Text.byteSize_cons, ← Nat.add_assoc, hcount, hcount]
      exact ⟨hdepth, by omega, hclose⟩

/-- A count that starts lower comes down to zero earlier. -/
theorem exists_closeFrom?_lt {k : Nat} (h : closeFrom? offset (depth + k) cs = some n)
    (hpos : 0 < depth) (hk : 0 < k) : ∃ m < n, closeFrom? offset depth cs = some m := by
  induction cs generalizing offset depth with
  | nil => simp [closeFrom?] at h
  | cons c cs ih =>
    have hsize := c.utf8Size_pos
    rw [closeFrom?, openAfter_add hpos, if_neg (by omega)] at h
    by_cases hzero : openAfter depth c = 0
    · have hle := le_of_closeFrom? h
      exact ⟨offset, by omega, by rw [closeFrom?, if_pos hzero]⟩
    · obtain ⟨m, hm, hclose⟩ := ih h (Nat.pos_of_ne_zero hzero)
      exact ⟨m, hm, by rw [closeFrom?, if_neg hzero, hclose]⟩

end Count

/-! ### Braces of a text -/

structure Place.IsBrace (p : Place) (text : List Char) : Prop where
  isIn : p.IsIn text
  opens : ∃ rest, p.rest = '{' :: rest

structure Place.IsOpenAt (o : Place) (offset : Nat) : Prop where
  lt : o.offset < offset
  le_close : ∀ close, o.close? = some close → offset ≤ close

/-- Whether no brace that is open at the offset comes after this one. -/
structure Place.IsInnermostAt (o : Place) (text : List Char) (offset : Nat) : Prop where
  isBrace : o.IsBrace text
  isOpen : o.IsOpenAt offset
  last : ∀ q : Place, q.IsBrace text → q.IsOpenAt offset → q.offset ≤ o.offset

section Braces
variable {text : List Char} {o q : Place} {close : Nat}

theorem eq_nil_of_byteSize {cs : List Char} (h : Text.byteSize cs = 0) : cs = [] := by
  cases cs with
  | nil => rfl
  | cons c cs =>
    have := c.utf8Size_pos
    rw [Text.byteSize_cons] at h
    omega

theorem Place.IsIn.exists_gap (ho : o.IsIn text) (hq : q.IsIn text) (hle : o.offset ≤ q.offset) :
    ∃ gap, o.rest = gap ++ q.rest ∧ q.offset = o.offset + Text.byteSize gap := by
  obtain ⟨before, htext, hoffset⟩ := ho
  obtain ⟨before', htext', hoffset'⟩ := hq
  rw [htext] at htext'
  rcases List.append_eq_append_iff.1 htext' with ⟨gap, rfl, hrest⟩ | ⟨gap, rfl, hrest⟩
  · exact ⟨gap, hrest, by rw [hoffset', hoffset, Text.byteSize_append]⟩
  · have hsize : Text.byteSize gap = 0 := by
      rw [hoffset, hoffset', Text.byteSize_append] at hle
      omega
    obtain rfl := eq_nil_of_byteSize hsize
    exact ⟨[], hrest.symm, by rw [hoffset', hoffset, List.append_nil]; rfl⟩

theorem Place.IsIn.eq_of_offset (ho : o.IsIn text) (hq : q.IsIn text) (he : o.offset = q.offset) :
    o = q := by
  obtain ⟨gap, hrest, hoffset⟩ := ho.exists_gap hq (Nat.le_of_eq he)
  obtain rfl := @eq_nil_of_byteSize gap (by omega)
  cases o
  cases q
  simp_all

/-- What stands behind a brace and before a later place. -/
theorem Place.IsBrace.exists_inner (ho : o.IsBrace text) (hq : q.IsIn text)
    (hlt : o.offset < q.offset) :
    ∃ inner, o.rest = '{' :: (inner ++ q.rest) ∧ q.offset = o.offset + 1 + Text.byteSize inner := by
  obtain ⟨gap, hgap, hoffset⟩ := ho.isIn.exists_gap hq (Nat.le_of_lt hlt)
  obtain ⟨rest, hrest⟩ := ho.opens
  cases gap with
  | nil =>
    rw [Text.byteSize_nil] at hoffset
    omega
  | cons c inner =>
    have hone : '{'.utf8Size = 1 := by decide
    obtain ⟨rfl, -⟩ := List.cons_eq_cons.1 (hrest.symm.trans hgap)
    rw [Text.byteSize_cons, hone] at hoffset
    exact ⟨inner, hgap, by omega⟩

theorem Place.IsBrace.isIn_behind (ho : o.IsBrace text) {inner rest : List Char}
    (hrest : o.rest = '{' :: (inner ++ rest)) :
    (Place.mk (o.offset + 1 + Text.byteSize inner) rest).IsIn text := by
  obtain ⟨before, htext, hoffset⟩ := ho.isIn
  have hone : '{'.utf8Size = 1 := by decide
  refine ⟨before ++ '{' :: inner, by simp [htext, hrest], ?_⟩
  simp only [Text.byteSize_append, Text.byteSize_cons, hone, hoffset]
  omega

/-- The count of open braces from a brace up to a later place that is not behind its end. -/
theorem Place.behind_of_close? (hclose : o.close? = some close) {inner rest : List Char}
    (hrest : o.rest = '{' :: (inner ++ rest))
    (hle : o.offset + 1 + Text.byteSize inner ≤ close) :
    0 < openBehind 1 inner ∧ openBehind 1 inner + inner.count '}' = 1 + inner.count '{' ∧
      closeFrom? (o.offset + 1 + Text.byteSize inner) (openBehind 1 inner) rest = some close := by
  rw [Place.close?, hrest, closeFrom?_open] at hclose
  exact closeFrom?_behind hclose hle Nat.one_pos

/-- A brace between another one and its end is closed before that end. -/
theorem Place.IsBrace.exists_close (ho : o.IsBrace text) (hq : q.IsBrace text)
    (hlt : o.offset < q.offset) (hclose : o.close? = some close) (hle : q.offset ≤ close) :
    ∃ close' < close, q.close? = some close' := by
  obtain ⟨inner, hinner, hoffset⟩ := ho.exists_inner hq.isIn hlt
  obtain ⟨hpos, -, hlater⟩ := Place.behind_of_close? hclose hinner (hoffset ▸ hle)
  obtain ⟨rest, hrest⟩ := hq.opens
  rw [← hoffset, hrest, closeFrom?_open, Nat.add_comm (openBehind 1 inner)] at hlater
  rw [Place.close?, hrest, closeFrom?_open]
  exact exists_closeFrom?_lt hlater Nat.one_pos hpos

/-- Where the count is back at one, the brace that it starts with is the innermost open one. -/
theorem Place.IsBrace.isInnermostAt (ho : o.IsBrace text) (hclose : o.close? = some close)
    {inner rest : List Char} (hrest : o.rest = '{' :: (inner ++ rest))
    (hle : o.offset + 1 + Text.byteSize inner ≤ close) (hdepth : openBehind 1 inner = 1) :
    o.IsInnermostAt text (o.offset + 1 + Text.byteSize inner) where
  isBrace := ho
  isOpen := by
    refine ⟨by omega, fun n hn => ?_⟩
    obtain rfl : close = n := Option.some.inj (hclose.symm.trans hn)
    exact hle
  last := by
    intro q hq hopen
    by_contra hlt
    have hlt : o.offset < q.offset := Nat.not_le.1 hlt
    have hqlt := hopen.lt
    have hplace := ho.isIn_behind hrest
    -- The text in between falls into a part before the other brace and one behind it.
    obtain ⟨first, hfirst, hqoffset⟩ := ho.exists_inner hq.isIn hlt
    obtain ⟨last, hlast, hoffset⟩ := hq.exists_inner hplace hqlt
    simp only at hlast hoffset
    have hinner : inner = first ++ '{' :: last := by
      rw [hlast] at hfirst
      have hsplit := List.cons_injective (hrest.symm.trans hfirst)
      rw [← List.cons_append, ← List.append_assoc] at hsplit
      exact List.append_cancel_right hsplit
    obtain ⟨close', -, hclose'⟩ := ho.exists_close hq hlt hclose (by omega)
    have hle' := hopen.le_close close' hclose'
    obtain ⟨-, hexact, -⟩ := Place.behind_of_close? hclose hrest hle
    obtain ⟨hposFirst, hexactFirst, -⟩ := Place.behind_of_close? hclose hfirst (by omega)
    obtain ⟨hposLast, hexactLast, -⟩ := Place.behind_of_close? hclose' hlast (by omega)
    rw [hdepth, hinner, List.count_append, List.count_append, List.count_cons_self,
      List.count_cons_of_ne (by decide)] at hexact
    omega

end Braces

/-! ### Bodies -/

section Bodies
variable {masked : List Char} {b b' : Body}

theorem Body.IsIn.isBrace (h : b.IsIn masked) : b.opening.IsBrace masked := ⟨h.opening, h.opens⟩

/-- Two bodies are the same, apart, or one inside the other. -/
theorem Body.IsIn.nested (h : b.IsIn masked) (h' : b'.IsIn masked) :
    (b.opening = b'.opening ∧ b.close = b'.close) ∨ b.close < b'.opening.offset ∨
      b'.close < b.opening.offset ∨ b.encloses b' = true ∨ b'.encloses b = true := by
  have hinside : ∀ {b b' : Body}, b.IsIn masked → b'.IsIn masked →
      b.opening.offset < b'.opening.offset →
      b.close < b'.opening.offset ∨ b.encloses b' = true := by
    intro b b' h h' hlt
    rcases Nat.lt_or_ge b.close b'.opening.offset with hapart | hle
    · exact Or.inl hapart
    · obtain ⟨close, hclose, he⟩ := h.isBrace.exists_close h'.isBrace hlt h.closes hle
      obtain rfl : b'.close = close := Option.some.inj (h'.closes.symm.trans he)
      exact Or.inr (by simp [Body.encloses, hlt, hclose])
  rcases Nat.lt_trichotomy b.opening.offset b'.opening.offset with hlt | he | hlt
  · rcases hinside h h' hlt with hapart | hencloses
    · exact Or.inr (Or.inl hapart)
    · exact Or.inr (Or.inr (Or.inr (Or.inl hencloses)))
  · have hopening := h.opening.eq_of_offset h'.opening he
    have hclose := h.closes
    rw [hopening, h'.closes] at hclose
    exact Or.inl ⟨hopening, (Option.some.inj hclose).symm⟩
  · rcases hinside h' h hlt with hapart | hencloses
    · exact Or.inr (Or.inr (Or.inl hapart))
    · exact Or.inr (Or.inr (Or.inr (Or.inr hencloses)))

end Bodies
end CodeAtlas.Script
