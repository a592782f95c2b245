import Mathlib.Data.List.Basic
import CodeAtlas.Proofs.Text.Bytes

/-!
# Byte offsets

A text can be cut at a byte offset that is not past its end and not inside a character. The cuts
here give nothing at any other offset. Stepping down from an offset to one where the text can be cut
ends behind the longest beginning that is no longer than the offset says.
-/
namespace CodeAtlas.Text

def sub? (m n : Nat) : Option Nat := if n ≤ m then some (m - n) else none

/-- The parts of a text before and behind a byte offset at which it can be cut. -/
def cut? (offset : Nat) : List Char → Option (List Char × List Char)
  | [] => if offset = 0 then some ([], []) else none
  | c :: cs =>
    if offset = 0 then some ([], c :: cs)
    else if c.utf8Size ≤ offset then
      (cut? (offset - c.utf8Size) cs).map fun parts => (c :: parts.1, parts.2)
    else none

def before? (text : List Char) (stop : Nat) : Option (List Char) := (cut? stop text).map (·.1)

def behind? (text : List Char) (start : Nat) : Option (List Char) := (cut? start text).map (·.2)

def slice? (text : List Char) (start stop : Nat) : Option (List Char) :=
  (before? text stop).bind fun part => behind? part start

def isBoundary (text : List Char) (offset : Nat) : Bool := (cut? offset text).isSome

/-- Steps down to an offset at which the text can be cut; nothing if that would lead below zero. -/
def boundaryBelow? (text : List Char) : Nat → Option Nat
  | 0 => if isBoundary text 0 then some 0 else none
  | n + 1 => if isBoundary text (n + 1) then some (n + 1) else boundaryBelow? text n

def bytes (text : List Char) : List UInt8 := text.flatMap String.utf8EncodeChar

/-- The byte at an offset, read as the character with that number. -/
def byte? (text : List Char) (offset : Nat) : Option Char :=
  (bytes text)[offset]?.map Char.ofUInt8

/-! ### Cuts -/

theorem cut?_append (before behind : List Char) :
    cut? (byteSize before) (before ++ behind) = some (before, behind) := by
  induction before with
  | nil => cases behind <;> simp [cut?]
  | cons c before ih =>
    have hpos := c.utf8Size_pos
    have hsub : byteSize (c :: before) - c.utf8Size = byteSize before := by
      rw [byteSize_cons, Nat.add_sub_cancel_left]
    rw [List.cons_append, cut?, hsub, ih, byteSize_cons, if_neg (by omega), if_pos (by omega),
      Option.map_some]

theorem cut?_eq_some {offset : Nat} {text before behind : List Char} :
    cut? offset text = some (before, behind) ↔
      text = before ++ behind ∧ offset = byteSize before := by
  constructor
  · intro h
    induction text generalizing offset before with
    | nil =>
      rw [cut?, Option.ite_none_right_eq_some] at h
      obtain ⟨rfl, h⟩ := h
      cases h
      exact ⟨rfl, rfl⟩
    | cons c cs ih =>
      rw [cut?] at h
      split at h
      next hzero =>
        cases h
        exact ⟨rfl, hzero⟩
      next hpos =>
        rw [Option.ite_none_right_eq_some, Option.map_eq_some_iff] at h
        obtain ⟨hle, ⟨first, rest⟩, hcut, h⟩ := h
        cases h
        obtain ⟨rfl, hoffset⟩ := ih hcut
        refine ⟨rfl, ?_⟩
        rw [byteSize_cons, ← hoffset, Nat.add_sub_cancel' hle]
  · rintro ⟨rfl, rfl⟩
    exact cut?_append before behind

theorem before?_eq_some {text part : List Char} {stop : Nat} :
    before? text stop = some part ↔ ∃ behind, text = part ++ behind ∧ stop = byteSize part := by
  simp [before?, cut?_eq_some]

theorem behind?_eq_some {text part : List Char} {start : Nat} :
    behind? text start = some part ↔
      ∃ before, text = before ++ part ∧ start = byteSize before := by
  simp [behind?, cut?_eq_some]

/-- A part is cut out between two offsets at which the text can be cut, the first one first. -/
theorem slice?_eq_some {text part : List Char} {start stop : Nat} :
    slice? text start stop = some part ↔ ∃ before behind, text = before ++ part ++ behind ∧
      start = byteSize before ∧ stop = byteSize before + byteSize part := by
  simp only [slice?, Option.bind_eq_some_iff, before?_eq_some, behind?_eq_some]
  constructor
  · rintro ⟨_, ⟨behind, rfl, rfl⟩, before, rfl, rfl⟩
    exact ⟨before, behind, rfl, rfl, byteSize_append _ _⟩
  · rintro ⟨before, behind, rfl, rfl, rfl⟩
    exact ⟨before ++ part, ⟨behind, rfl, (byteSize_append _ _).symm⟩, before, rfl, rfl⟩

theorem before?_append (before behind : List Char) :
    before? (before ++ behind) (byteSize before) = some before :=
  before?_eq_some.2 ⟨behind, rfl, rfl⟩

theorem behind?_append (before behind : List Char) :
    behind? (before ++ behind) (byteSize before) = some behind :=
  behind?_eq_some.2 ⟨before, rfl, rfl⟩

/-- The second byte of a character is no place for a cut. -/
example : slice? "é".toList 0 2 = some ['é'] ∧ slice? "é".toList 1 2 = none := by decide

theorem slice?_append (before part behind : List Char) :
    slice? (before ++ part ++ behind) (byteSize before) (byteSize before + byteSize part) =
      some part :=
  slice?_eq_some.2 ⟨before, behind, rfl, rfl, rfl⟩

/-! ### Boundaries -/

theorem takeBytes_isPrefix (limit : Nat) (text : List Char) : takeBytes limit text <+: text := by
  induction text generalizing limit with
  | nil => exact List.nil_prefix
  | cons c cs ih =>
    rw [takeBytes_cons]
    split
    · exact List.cons_prefix_cons.2 ⟨rfl, ih _⟩
    · exact List.nil_prefix

theorem byteSize_takeBytes_le (limit : Nat) (text : List Char) :
    byteSize (takeBytes limit text) ≤ limit := by
  induction text generalizing limit with
  | nil => exact Nat.zero_le _
  | cons c cs ih =>
    rw [takeBytes_cons]
    split
    · have := ih (limit - c.utf8Size)
      rw [byteSize_cons]
      omega
    · exact Nat.zero_le _

theorem isBoundary_iff {text : List Char} {offset : Nat} :
    isBoundary text offset = true ↔ byteSize (takeBytes offset text) = offset := by
  rw [isBoundary, Option.isSome_iff_exists]
  constructor
  · rintro ⟨⟨before, behind⟩, hcut⟩
    obtain ⟨rfl, rfl⟩ := cut?_eq_some.1 hcut
    rw [takeBytes_byteSize]
  · intro h
    obtain ⟨behind, hbehind⟩ := takeBytes_isPrefix offset text
    exact ⟨_, cut?_eq_some.2 ⟨hbehind.symm, h.symm⟩⟩

theorem takeBytes_byteSize_takeBytes (limit : Nat) (text : List Char) :
    takeBytes (byteSize (takeBytes limit text)) text = takeBytes limit text := by
  obtain ⟨behind, hbehind⟩ := takeBytes_isPrefix limit text
  have hcut := takeBytes_byteSize (takeBytes limit text) behind
  rwa [hbehind] at hcut

/-- One byte more is of no use if the text cannot be cut behind it. -/
theorem takeBytes_succ {text : List Char} {n : Nat} (h : isBoundary text (n + 1) = false) :
    takeBytes (n + 1) text = takeBytes n text := by
  have hle := byteSize_takeBytes_le (n + 1) text
  have hne : byteSize (takeBytes (n + 1) text) ≠ n + 1 := fun he =>
    Bool.false_ne_true (h.symm.trans (isBoundary_iff.2 he))
  have hshort : takeBytes (n + 1) text <+: takeBytes n text := by
    rw [← takeBytes_byteSize_takeBytes]
    exact takeBytes_prefix_of_le text (by omega)
  have hlong : takeBytes n text <+: takeBytes (n + 1) text :=
    takeBytes_prefix_of_le text (Nat.le_succ n)
  exact hshort.eq_of_length_le hlong.length_le

theorem boundaryBelow?_eq (text : List Char) (n : Nat) :
    boundaryBelow? text n = some (byteSize (takeBytes n text)) := by
  induction n with
  | zero =>
    have hzero : byteSize (takeBytes 0 text) = 0 := Nat.le_zero.1 (byteSize_takeBytes_le 0 text)
    rw [boundaryBelow?, if_pos (isBoundary_iff.2 hzero), hzero]
  | succ n ih =>
    rw [boundaryBelow?]
    split
    next hcut => rw [isBoundary_iff.1 hcut]
    next hcut => rw [ih, takeBytes_succ (by simpa using hcut)]

/-! ### Bytes -/

theorem bytes_cons (c : Char) (text : List Char) :
    bytes (c :: text) = String.utf8EncodeChar c ++ bytes text := rfl

theorem bytes_append (first rest : List Char) : bytes (first ++ rest) = bytes first ++ bytes rest :=
  List.flatMap_append

theorem length_bytes (text : List Char) : (bytes text).length = byteSize text := by
  induction text with
  | nil => rfl
  | cons c text ih =>
    rw [bytes_cons, List.length_append, String.length_utf8EncodeChar, byteSize_cons, ih]

theorem getElem?_bytes (before behind : List Char) {c : Char} {i : Nat} (hi : i < c.utf8Size) :
    (bytes (before ++ c :: behind))[byteSize before + i]? = (String.utf8EncodeChar c)[i]? := by
  rw [bytes_append, bytes_cons, ← length_bytes,
    List.getElem?_append_right (Nat.le_add_right _ _), Nat.add_sub_cancel_left,
    List.getElem?_append_left (by rwa [String.length_utf8EncodeChar])]

theorem ofUInt8_toUInt8 {c : Char} (h : c.val ≤ 127) : Char.ofUInt8 c.val.toUInt8 = c := by
  have hlt : c.val.toNat ≤ 127 := h
  apply Char.ext
  rw [← UInt32.toNat_inj]
  have hmod : (Char.ofUInt8 c.val.toUInt8).val.toNat = c.val.toNat % 256 := rfl
  omega

/-- A character outside of ASCII is made of bytes outside of ASCII. -/
theorem le_of_mem_utf8EncodeChar {c : Char} (h : c.utf8Size ≠ 1) :
    ∀ b ∈ String.utf8EncodeChar c, 128 ≤ b.toNat := by
  have hlarge : ¬ c.val.toNat ≤ 127 := fun hle => h (Char.utf8Size_eq_one_iff.2 hle)
  have hbyte : ∀ n m, 128 ≤ m → n + m < 256 → 128 ≤ (UInt8.ofNat (n + m)).toNat := by
    intro n m hm hn
    rw [UInt8.toNat_ofNat']
    omega
  simp only [String.utf8EncodeChar, if_neg hlarge]
  split_ifs
  all_goals
    simp only [List.forall_mem_cons]
    and_intros
  all_goals
    first
    | exact hbyte _ _ (by omega) (by omega)
    | exact fun _ hb => absurd hb List.not_mem_nil

theorem byte?_of_ascii (before behind : List Char) {c : Char} (h : c.utf8Size = 1) :
    byte? (before ++ c :: behind) (byteSize before) = some c := by
  have hbyte := getElem?_bytes before behind (show 0 < c.utf8Size from c.utf8Size_pos)
  rw [String.utf8EncodeChar_eq_singleton h] at hbyte
  rw [byte?, ← Nat.add_zero (byteSize before), hbyte]
  exact congrArg some (ofUInt8_toUInt8 (Char.utf8Size_eq_one_iff.1 h))

theorem exists_byte? (before behind : List Char) {c : Char} (h : c.utf8Size ≠ 1) {i : Nat}
    (hi : i < c.utf8Size) :
    ∃ d, byte? (before ++ c :: behind) (byteSize before + i) = some d ∧ 128 ≤ d.toNat := by
  have hi' : i < (String.utf8EncodeChar c).length := by rwa [String.length_utf8EncodeChar]
  rw [byte?, getElem?_bytes before behind hi, List.getElem?_eq_getElem hi', Option.map_some]
  exact ⟨_, rfl, le_of_mem_utf8EncodeChar h _ (List.getElem_mem hi')⟩

theorem le_toNat_of_utf8Size {c : Char} (h : c.utf8Size ≠ 1) : 128 ≤ c.toNat :=
  Nat.lt_of_not_le fun hle => h (Char.utf8Size_eq_one_iff.2 hle)

end CodeAtlas.Text
