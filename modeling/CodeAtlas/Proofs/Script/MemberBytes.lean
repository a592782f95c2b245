import CodeAtlas.Proofs.Module.KeyOrder
import CodeAtlas.Proofs.Outcomes
import CodeAtlas.Proofs.Script.Members
import CodeAtlas.Proofs.Text.Offsets

/-!
# Members found byte by byte

A body can be searched for members by looking at its bytes one after another. Marks and blanks are
ASCII, and no byte of another character looks like one, so this finds the places that the scan of
characters finds. Every byte that is asked for is there, and each place and the end of its window
are offsets at which the text can be cut.
-/
namespace CodeAtlas.Script
open Text

/-! ### The search -/

def endsMember (c : Char) : Bool := c = '\n' || c = ';' || c = '}'

/-- The offset of the first byte that is no blank, or else the limit. -/
def skipBlanks? (text : List Char) (limit pos : Nat) : Option Nat :=
  if pos < limit then
    match byte? text pos with
    | none => none
    | some c => if isPlainBlank c then skipBlanks? text limit (pos + 1) else some pos
  else some pos
termination_by limit - pos

/-- The offsets behind the bytes that end a member, put in order among those `found` before. -/
def memberOffsets? (text : List Char) (close pos depth : Nat) (found : List Nat) :
    Option (List Nat) :=
  if pos < close then
    match byte? text pos with
    | none => none
    | some c =>
      if openAfter depth c = 1 && endsMember c then
        match skipBlanks? text close (pos + 1) with
        | none => none
        | some start => memberOffsets? text close (pos + 1) (openAfter depth c)
            (insertInOrder compare start found)
      else memberOffsets? text close (pos + 1) (openAfter depth c) found
  else some found
termination_by close - pos

def isMemberAt? (text : List Char) (close start : Nat) : Option Bool := do
  let stop ← boundaryBelow? text (min (start + memberWindow) close)
  let window ← slice? text start stop
  return isFunctionMember window

def countMembers? (text : List Char) (opening close : Nat) : Option Nat := do
  let first ← skipBlanks? text close (opening + 1)
  let starts ← memberOffsets? text close (opening + 1) 1 [first]
  let members ← (starts.filter (· < close)).mapM (isMemberAt? text close)
  return members.countP id

/-! ### Bytes and characters -/

theorem ne_of_toNat_lt {c d : Char} (hc : 128 ≤ c.toNat) (hd : d.toNat < 128) : c ≠ d := by
  rintro rfl
  omega

section Large
variable {c : Char} (h : 128 ≤ c.toNat)
include h

theorem isPlainBlank_of_le : isPlainBlank c = false := by
  simp [isPlainBlank, ne_of_toNat_lt h]

theorem endsMember_of_le : endsMember c = false := by
  simp [endsMember, ne_of_toNat_lt h]

theorem openAfter_of_le (depth : Nat) : openAfter depth c = depth := by
  simp [openAfter, ne_of_toNat_lt h]

end Large

theorem byteSize_concat (cs : List Char) (c : Char) :
    byteSize (cs ++ [c]) = byteSize cs + c.utf8Size := by
  rw [byteSize_append, byteSize_cons, byteSize_nil, Nat.add_zero]

section Inner
variable {text before inner after : List Char}

/-- The blanks from an offset on are skipped up to the end of the part that may be looked at. -/
theorem skipBlanks?_eq (htext : text = before ++ inner ++ after) :
    skipBlanks? text (byteSize before + byteSize inner) (byteSize before) =
      some (byteSize before + byteSize (inner.takeWhile isPlainBlank)) := by
  induction inner generalizing before with
  | nil =>
    rw [skipBlanks?, if_neg (by simp)]
    rfl
  | cons c inner ih =>
    have hpos := c.utf8Size_pos
    have hhere : text = before ++ c :: (inner ++ after) := by simp [htext]
    have hrest := @ih (before ++ [c]) (by simp [htext])
    rw [byteSize_concat] at hrest
    rw [byteSize_cons, ← Nat.add_assoc, skipBlanks?, if_pos (by omega), hhere]
    by_cases hsize : c.utf8Size = 1
    · rw [byte?_of_ascii before _ hsize, ← hhere]
      dsimp only
      split
      next hblank =>
        rw [List.takeWhile_cons_of_pos hblank, byteSize_cons, ← Nat.add_assoc, ← hrest, hsize]
      next hblank => rw [List.takeWhile_cons_of_neg hblank, byteSize_nil, Nat.add_zero]
    · obtain ⟨d, hd, hlarge⟩ := exists_byte? before (inner ++ after) hsize hpos
      have hblank : ¬ isPlainBlank c = true := by
        rw [isPlainBlank_of_le (le_toNat_of_utf8Size hsize)]
        exact Bool.false_ne_true
      rw [Nat.add_zero] at hd
      rw [hd, List.takeWhile_cons_of_neg hblank, byteSize_nil]
      dsimp only
      rw [isPlainBlank_of_le hlarge, if_neg Bool.false_ne_true, Nat.add_zero]

/-- Behind the characters that end a member, the offsets of what is no blank. -/
def offsetsBehind (offset depth : Nat) : List Char → List Nat
  | [] => []
  | c :: inner =>
    (if openAfter depth c = 1 && endsMember c then
      [offset + c.utf8Size + byteSize (inner.takeWhile isPlainBlank)] else []) ++
        offsetsBehind (offset + c.utf8Size) (openAfter depth c) inner

/-- The bytes of a character outside of ASCII are passed over. -/
theorem memberOffsets?_pass (before behind : List Char) {c : Char} (hsize : c.utf8Size ≠ 1)
    {close : Nat} (hclose : byteSize before + c.utf8Size ≤ close) (depth : Nat) (found : List Nat)
    {i : Nat} (hi : i ≤ c.utf8Size) :
    memberOffsets? (before ++ c :: behind) close (byteSize before + i) depth found =
      memberOffsets? (before ++ c :: behind) close (byteSize before + c.utf8Size) depth found := by
  induction hleft : c.utf8Size - i generalizing i with
  | zero => rw [Nat.le_antisymm hi (Nat.sub_eq_zero_iff_le.1 hleft)]
  | succ n ih =>
    obtain ⟨d, hd, hlarge⟩ := exists_byte? before behind hsize (show i < c.utf8Size by omega)
    rw [memberOffsets?, if_pos (by omega), hd]
    dsimp only
    rw [endsMember_of_le hlarge, Bool.and_false, if_neg Bool.false_ne_true, openAfter_of_le hlarge,
      Nat.add_assoc, ih (by omega) (by omega)]

theorem memberOffsets?_eq (htext : text = before ++ inner ++ after) (depth : Nat)
    (found : List Nat) :
    memberOffsets? text (byteSize before + byteSize inner) (byteSize before) depth found =
      some ((offsetsBehind (byteSize before) depth inner).foldl
        (fun kept n => insertInOrder compare n kept) found) := by
  induction inner generalizing before depth found with
  | nil =>
    rw [memberOffsets?, if_neg (by simp)]
    rfl
  | cons c inner ih =>
    have hpos := c.utf8Size_pos
    have hhere : text = before ++ c :: (inner ++ after) := by simp [htext]
    have hbehind : text = (before ++ [c]) ++ inner ++ after := by simp [htext]
    have hrest := ih hbehind
    have hblanks := skipBlanks?_eq hbehind
    rw [byteSize_concat] at hblanks
    simp only [byteSize_concat] at hrest
    rw [byteSize_cons, ← Nat.add_assoc, offsetsBehind]
    by_cases hsize : c.utf8Size = 1
    · rw [memberOffsets?, if_pos (by omega), hhere, byte?_of_ascii before _ hsize, ← hhere, ← hsize]
      dsimp only
      split
      next hends =>
        rw [hblanks]
        exact hrest _ _
      next hends => exact hrest _ _
    · have hlarge := le_toNat_of_utf8Size hsize
      have hpass := memberOffsets?_pass before (inner ++ after) hsize
        (show byteSize before + c.utf8Size ≤ byteSize before + c.utf8Size + byteSize inner by omega)
        depth found (Nat.zero_le _)
      rw [Nat.add_zero, ← hhere] at hpass
      rw [hpass, hrest, endsMember_of_le hlarge, openAfter_of_le hlarge, Bool.and_false]
      rfl

end Inner

/-! ### The places that are found -/

/-- The places at which the scan of characters finds members begin where blanks end: at once if a
member is awaited, and behind all that ends a member. -/
theorem mem_offsets_memberStartsFrom {close offset depth n : Nat} {pending : Bool}
    {inner : List Char} (after : List Char) (hclose : close = offset + byteSize inner)
    (hn : n < close) :
    n ∈ (memberStartsFrom close offset depth pending [] (inner ++ after)).map (·.offset) ↔
      (pending = true ∧ n = offset + byteSize (inner.takeWhile isPlainBlank)) ∨
        n ∈ offsetsBehind offset depth inner := by
  induction inner generalizing offset depth pending with
  | nil =>
    have hend : close = offset := hclose
    have hnone : memberStartsFrom close offset depth pending [] ([] ++ after) = [] := by
      cases after with
      | nil => rfl
      | cons c after => rw [List.nil_append, memberStartsFrom_cons, if_pos (Nat.le_of_eq hend)]
    have hne : n ≠ offset := by omega
    rw [hnone]
    simp [offsetsBehind, hne]
  | cons c inner ih =>
    have hpos := c.utf8Size_pos
    rw [byteSize_cons] at hclose
    have hpending : pendingAfter depth pending c =
        (pending && isPlainBlank c || openAfter depth c = 1 && endsMember c) := rfl
    rw [List.cons_append, memberStartsFrom_cons, if_neg (by omega), List.map_append,
      List.mem_append, ih (by omega), hpending, offsetsBehind, List.mem_append]
    have hbehind : n ∈ (if (openAfter depth c = 1 && endsMember c) = true then
        [offset + c.utf8Size + byteSize (inner.takeWhile isPlainBlank)] else []) ↔
          (openAfter depth c = 1 && endsMember c) = true ∧
            n = offset + c.utf8Size + byteSize (inner.takeWhile isPlainBlank) := by
      split <;> simp_all
    rw [hbehind]
    cases hblank : isPlainBlank c with
    | true =>
      -- Whoever waits for a member goes on waiting.
      rw [List.takeWhile_cons_of_pos hblank, byteSize_cons, ← Nat.add_assoc, Bool.not_true,
        Bool.and_false, if_neg Bool.false_ne_true, List.map_nil, Bool.and_true, Bool.or_eq_true,
        or_and_right, or_assoc]
      exact or_iff_right List.not_mem_nil
    | false =>
      rw [List.takeWhile_cons_of_neg (by simp [hblank]), byteSize_nil, Nat.add_zero,
        Bool.not_false, Bool.and_true, Bool.and_false, Bool.false_or]
      refine or_congr_left ?_
      cases pending <;> simp

/-- The bytes give the same places in the same order. -/
theorem filter_sortedSet_offsets {close offset : Nat} {inner : List Char} (after : List Char)
    (hclose : close = offset + byteSize inner) :
    (sortedSet compare ((offset + byteSize (inner.takeWhile isPlainBlank)) ::
      offsetsBehind offset 1 inner)).filter (· < close) =
      (memberStartsFrom close offset 1 true [] (inner ++ after)).map (·.offset) := by
  have hsorted : (sortedSet compare ((offset + byteSize (inner.takeWhile isPlainBlank)) ::
      offsetsBehind offset 1 inner)).Pairwise (· < ·) :=
    (ascending_sortedSet _).imp Nat.compare_eq_lt.1
  apply List.Pairwise.eq_of_mem_iff (hsorted.filter _)
    (List.pairwise_map.2 (memberStartsFrom_ascending _))
  intro n
  rw [List.mem_filter, decide_eq_true_eq, mem_sortedSet, List.mem_cons]
  constructor
  · rintro ⟨hmem, hn⟩
    rw [mem_offsets_memberStartsFrom after hclose hn]
    exact hmem.imp_left fun h => ⟨rfl, h⟩
  · intro hmem
    obtain ⟨p, hp, rfl⟩ := List.mem_map.1 hmem
    obtain ⟨-, -, -, hlt, -⟩ := exists_of_mem_memberStartsFrom hp
    rw [mem_offsets_memberStartsFrom after hclose hlt] at hmem
    exact ⟨hmem.imp_left And.right, hlt⟩

section Bodies
variable {masked : List Char} {b : Body}

/-- The text from behind the opening brace of a body up to its closing brace. -/
theorem Body.IsIn.exists_inside (h : b.IsIn masked) : ∃ before inner after,
    masked = before ++ inner ++ '}' :: after ∧ b.opening.offset + 1 = byteSize before ∧
      b.close = byteSize before + byteSize inner ∧
      b.opening.rest = '{' :: (inner ++ '}' :: after) := by
  obtain ⟨before, inner, after, hmasked, hopening, hclose⟩ := h.exists_inner
  have hone : '{'.utf8Size = 1 := by decide
  have hplace : (Place.mk b.opening.offset ('{' :: (inner ++ '}' :: after))).IsIn masked :=
    ⟨before, by simp [hmasked], hopening⟩
  refine ⟨before ++ ['{'], inner, after, by simp [hmasked], ?_, ?_, ?_⟩
  · rw [byteSize_concat, hopening, hone]
  · rw [hclose, byteSize_append, byteSize_cons, byteSize_concat, Nat.add_assoc]
  · exact congrArg Place.rest (h.opening.eq_of_offset hplace rfl)

/-- A window reaches from a place to an offset behind it at which the text can be cut. -/
theorem isMemberAt?_eq {close : Nat} {p : Place} (hin : p.IsIn masked) (hlt : p.offset < close) :
    isMemberAt? masked close p.offset = some (isFunctionMember (p.window close)) := by
  obtain ⟨before, hmasked, hoffset⟩ := hin
  have hstop : min (p.offset + memberWindow) close =
      byteSize before + min memberWindow (close - p.offset) := by omega
  obtain ⟨behind, hbehind⟩ := takeBytes_isPrefix (min memberWindow (close - p.offset)) p.rest
  have hslice := slice?_append before (p.window close) behind
  rw [List.append_assoc, Place.window, hbehind, ← hmasked, ← hoffset] at hslice
  have hboundary := boundaryBelow?_eq masked (min (p.offset + memberWindow) close)
  rw [hstop, hmasked, takeBytes_byteSize_add, byteSize_append, ← hmasked, ← hstop,
    ← hoffset] at hboundary
  rw [isMemberAt?, hboundary, Option.bind_eq_bind, Option.bind_some, hslice]
  rfl

theorem Body.IsIn.mapM_isMemberAt? (h : b.IsIn masked) :
    ((memberStarts b.opening b.close).map (·.offset)).mapM (isMemberAt? masked b.close) =
      some ((memberStarts b.opening b.close).map fun p => isFunctionMember (p.window b.close)) := by
  rw [mapM_eq_some, List.map_map, List.map_map]
  refine List.map_congr_left fun p hp => ?_
  exact isMemberAt?_eq (h.looksInside.isIn p hp) (h.looksInside.between p hp).2

/-- Byte by byte, the members of a body are counted as they are character by character. -/
theorem Body.IsIn.countMembers?_eq (h : b.IsIn masked) :
    countMembers? masked b.opening.offset b.close = some (countMembers b.opening b.close) := by
  obtain ⟨before, inner, after, hmasked, hoffset, hclose, hrest⟩ := h.exists_inside
  have hstarts : ((offsetsBehind (byteSize before) 1 inner).foldl
      (fun kept n => insertInOrder compare n kept)
        [byteSize before + byteSize (inner.takeWhile isPlainBlank)]).filter (· < b.close) =
      (memberStarts b.opening b.close).map (·.offset) := by
    rw [memberStarts, hrest, hoffset, List.drop_one, List.tail_cons]
    exact filter_sortedSet_offsets ('}' :: after) hclose
  rw [countMembers?, hoffset, hclose, skipBlanks?_eq hmasked, Option.bind_eq_bind,
    Option.bind_some, memberOffsets?_eq hmasked, Option.bind_eq_bind, Option.bind_some, ← hclose,
    hstarts, h.mapM_isMemberAt?, Option.bind_eq_bind, Option.bind_some, List.countP_map]
  rfl

end Bodies
end CodeAtlas.Script
