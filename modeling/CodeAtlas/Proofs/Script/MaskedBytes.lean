import Mathlib.Data.List.Forall2
import Mathlib.Data.List.Sort
import CodeAtlas.Proofs.Script.ModeStack
import CodeAtlas.Proofs.Text.LineBytes

/-!
# Masking byte by byte

Of whatever text, masking leaves each byte or puts a space in its place, and it never puts one in
the place of a line feed. So the text can be cut wherever the source can, and its lines begin where
those of the source do.
-/
namespace CodeAtlas.Script
open Text

/-- Whether one byte may stand in the place of another: the byte itself and, but for a line feed, a
space. -/
def MayBecome (b b' : UInt8) : Prop := b' = b ∨ b ≠ '\n'.toUInt8 ∧ b' = ' '.toUInt8

/-- Whether a text is another one of which some bytes have given way to spaces. -/
structure BlanksBytes (source masked : List Char) : Prop where
  length_eq : (bytes masked).length = (bytes source).length
  getElem?_eq : ∀ {n : Nat} {b : UInt8}, (bytes source)[n]? = some b →
    (bytes masked)[n]? = some b ∨ (bytes masked)[n]? = some ' '.toUInt8
  newline_iff : ∀ {n : Nat},
    (bytes masked)[n]? = some '\n'.toUInt8 ↔ (bytes source)[n]? = some '\n'.toUInt8
  isBoundary : ∀ {n : Nat}, isBoundary source n = true → isBoundary masked n = true
  lineStarts_eq : lineStarts masked = lineStarts source

theorem MayBecome.newline_iff {b b' : UInt8} (h : MayBecome b b') :
    b' = '\n'.toUInt8 ↔ b = '\n'.toUInt8 := by
  rcases h with rfl | ⟨hb, rfl⟩
  · exact Iff.rfl
  · exact ⟨fun he => absurd he (by decide), fun he => absurd he hb⟩

theorem bytes_spaces (n : Nat) : bytes (List.replicate n ' ') = List.replicate n ' '.toUInt8 := by
  have hspace : String.utf8EncodeChar ' ' = [' '.toUInt8] := by decide
  induction n with
  | zero => rfl
  | succ n ih => rw [List.replicate_succ, bytes_cons, ih, hspace, List.replicate_succ]; rfl

/-- A hidden character is as many spaces as it has bytes, unless it is a line feed. -/
theorem forall₂_bytes_shown (hidden : Bool) (c : Char) :
    List.Forall₂ MayBecome (String.utf8EncodeChar c) (bytes (shown hidden c)) := by
  have hsame : List.Forall₂ MayBecome (String.utf8EncodeChar c) (bytes [c]) := by
    rw [bytes_cons, bytes, List.flatMap_nil, List.append_nil]
    exact List.forall₂_same.2 fun b _ => Or.inl rfl
  cases hidden with
  | false => exact hsame
  | true =>
    by_cases hc : c = '\n'
    · subst hc
      exact hsame
    · have hblank : shown true c = List.replicate c.utf8Size ' ' := by simp [shown, blank, hc]
      rw [hblank, bytes_spaces, ← String.length_utf8EncodeChar, ← List.map_const',
        List.forall₂_map_right_iff, List.forall₂_same]
      intro b hb
      exact Or.inr ⟨fun he => newline_not_mem_utf8EncodeChar hc (he ▸ hb), rfl⟩

namespace Veiled
variable {cs ds : List Char}

theorem forall₂_bytes (h : Veiled cs ds) : List.Forall₂ MayBecome (bytes cs) (bytes ds) := by
  induction h with
  | nil => exact .nil
  | cons hidden c _ ih =>
    rw [bytes_cons, bytes_append]
    exact List.rel_append (forall₂_bytes_shown hidden c) ih

theorem mayBecome (h : Veiled cs ds) {n : Nat} {b : UInt8} (hb : (bytes cs)[n]? = some b) :
    ∃ b', (bytes ds)[n]? = some b' ∧ MayBecome b b' := by
  obtain ⟨hlength, hbytes⟩ := List.forall₂_iff_get.1 h.forall₂_bytes
  obtain ⟨hn, rfl⟩ := List.getElem?_eq_some_iff.1 hb
  exact ⟨_, List.getElem?_eq_getElem (hlength ▸ hn), hbytes n hn (hlength ▸ hn)⟩

theorem newline_iff (h : Veiled cs ds) {n : Nat} :
    (bytes ds)[n]? = some '\n'.toUInt8 ↔ (bytes cs)[n]? = some '\n'.toUInt8 := by
  have hlength := h.forall₂_bytes.length_eq
  cases hb : (bytes cs)[n]? with
  | none =>
    rw [List.getElem?_eq_none_iff] at hb
    rw [List.getElem?_eq_none (hlength ▸ hb)]
  | some b =>
    obtain ⟨b', hb', hmay⟩ := h.mayBecome hb
    rw [hb', Option.some.injEq, Option.some.injEq]
    exact hmay.newline_iff

theorem exists_append {before behind : List Char} (h : Veiled (before ++ behind) ds) :
    ∃ before' behind', ds = before' ++ behind' ∧ Veiled before before' ∧ Veiled behind behind' := by
  induction before generalizing ds with
  | nil => exact ⟨[], ds, rfl, .nil, h⟩
  | cons c before ih =>
    cases h with
    | cons hidden _ rest =>
      obtain ⟨before', behind', rfl, hbefore, hbehind⟩ := ih rest
      exact ⟨_, behind', (List.append_assoc _ _ _).symm, .cons hidden c hbefore, hbehind⟩

theorem isBoundary (h : Veiled cs ds) {n : Nat} (hn : isBoundary cs n = true) :
    Text.isBoundary ds n = true := by
  rw [Text.isBoundary, Option.isSome_iff_exists] at hn ⊢
  obtain ⟨⟨before, behind⟩, hcut⟩ := hn
  obtain ⟨rfl, rfl⟩ := cut?_eq_some.1 hcut
  obtain ⟨before', behind', rfl, hbefore, -⟩ := h.exists_append
  exact ⟨(before', behind'), cut?_eq_some.2 ⟨rfl, hbefore.byteSize_eq.symm⟩⟩

theorem lineStarts_eq (h : Veiled cs ds) : lineStarts ds = lineStarts cs := by
  refine (lineStarts_ascending ds).eq_of_mem_iff (lineStarts_ascending cs) fun n => ?_
  simp only [mem_lineStarts, h.newline_iff]

theorem blanksBytes (h : Veiled cs ds) : BlanksBytes cs ds where
  length_eq := h.forall₂_bytes.length_eq.symm
  getElem?_eq := by
    intro n b hb
    obtain ⟨b', hb', rfl | ⟨-, rfl⟩⟩ := h.mayBecome hb
    · exact Or.inl hb'
    · exact Or.inr hb'
  newline_iff := h.newline_iff
  isBoundary := h.isBoundary
  lineStarts_eq := h.lineStarts_eq

end Veiled

/-- Whatever the text, masking blanks some of its bytes. The scan that does it comes to the end of
the text, and wherever it stands its modes are in order. -/
theorem mask_blanksBytes (source : List Char) :
    BlanksBytes source (mask source) ∧
      (∃ modes, ScansTo source modes (mask source) []) ∧
      ∀ {modes : List Mode} {written rest : List Char}, ScansTo source modes written rest →
        mask source = written ++ scan modes rest ∧ Stacked modes :=
  ⟨(veiled_mask source).blanksBytes, ScansTo.start.exists_end, fun h => ⟨h.mask_eq, h.stacked⟩⟩

def openTemplate : List Char := ['\x60', '$', '{', '\x27', 'é']

theorem mask_blanksBytes_openTemplate :
    ScansTo openTemplate [.string '\x27', .interpolation 0, .template, .code]
        ['\x60', ' ', ' ', ' '] ['é'] ∧
      BlanksBytes openTemplate (mask openTemplate) ∧
      mask openTemplate = ['\x60', ' ', ' ', ' '] ++
        scan [.string '\x27', .interpolation 0, .template, .code] ['é'] ∧
      Stacked [.string '\x27', .interpolation 0, .template, .code] := by
  have htemplate : ScansTo openTemplate [.template, .code] ['\x60'] ['$', '{', '\x27', 'é'] :=
    @ScansTo.step _ _ _ '\x60' _ .start
  have hinterpolation : ScansTo openTemplate [.interpolation 0, .template, .code]
      ['\x60', ' ', ' '] ['\x27', 'é'] := @ScansTo.step _ _ _ '$' ['{', '\x27', 'é'] htemplate
  have hscan : ScansTo openTemplate [.string '\x27', .interpolation 0, .template, .code]
      ['\x60', ' ', ' ', ' '] ['é'] := @ScansTo.step _ _ _ '\x27' ['é'] hinterpolation
  obtain ⟨hbytes, -, hstands⟩ := mask_blanksBytes openTemplate
  exact ⟨hscan, hbytes, hstands hscan⟩

end CodeAtlas.Script
