/-
  TokenMachine.Proofs.Text.ByteOrder — the order of texts is that of their bytes.

  Texts are compared by code points. In UTF-8 a character of a greater code point has an encoding
  that is greater at the first byte where the two differ, and neither of two encodings begins with
  the other (`utf8EncodeChar_append_lt`); so comparing the bytes of two texts comes to the same
  (`bytes_lt_iff`).
-/

import Mathlib.Data.String.Basic
import Mathlib.Tactic.SplitIfs

namespace TokenMachine.Text

def bytes (text : String) : List UInt8 := text.toUTF8.data.toList

variable {c d : Char} {cs ds : List Char} {s t : String}

theorem bytes_eq (s : String) : bytes s = s.toList.flatMap String.utf8EncodeChar := by
  have h : s.toByteArray = s.toList.utf8Encode := by
    rw [← String.toByteArray_ofList, String.ofList_toList]
  rw [bytes, String.toUTF8_eq_toByteArray, h, List.utf8Encode, List.data_toByteArray]

/-- Two characters are encoded in the order of their code points, whatever follows them. -/
theorem utf8EncodeChar_append_lt (h : c < d) (xs ys : List UInt8) :
    String.utf8EncodeChar c ++ xs < String.utf8EncodeChar d ++ ys := by
  have hval : c.val.toNat < d.val.toNat := h
  have hsize : d.val.toNat < 0x110000 := by
    rcases d.valid with hd | hd <;> omega
  unfold String.utf8EncodeChar
  dsimp only
  -- A shorter encoding begins with a smaller byte; of two equally long ones the digits decide.
  split_ifs
  all_goals
    simp only [List.cons_append, List.nil_append, List.cons_lt_cons_iff, UInt8.lt_iff_toNat_lt,
      ← UInt8.toNat_inj, UInt8.toNat_ofNat']
    simp (disch := omega) only [Nat.mod_eq_of_lt]
    omega

theorem flatMap_utf8EncodeChar_lt (h : cs < ds) :
    cs.flatMap String.utf8EncodeChar < ds.flatMap String.utf8EncodeChar := by
  induction h with
  | @nil d ds =>
    obtain ⟨b, bs, hb⟩ := List.exists_cons_of_ne_nil (String.utf8EncodeChar_ne_nil (c := d))
    rw [List.flatMap_cons, hb]
    exact List.nil_lt_cons _ _
  | rel h =>
    rw [List.flatMap_cons, List.flatMap_cons]
    exact utf8EncodeChar_append_lt h _ _
  | cons _ ih =>
    rw [List.flatMap_cons, List.flatMap_cons]
    exact List.append_left_lt ih

/-- Texts are in the order of their bytes exactly if they are in that of their code points. -/
theorem bytes_lt_iff : bytes s < bytes t ↔ s < t := by
  have mono {s t : String} (h : s < t) : bytes s < bytes t := by
    rw [bytes_eq, bytes_eq]
    exact flatMap_utf8EncodeChar_lt h
  refine ⟨fun h => ?_, mono⟩
  rcases lt_trichotomy s t with hlt | rfl | hlt
  · exact hlt
  · exact absurd h (List.lt_irrefl _)
  · exact absurd h (List.lt_asymm (mono hlt))

end TokenMachine.Text
