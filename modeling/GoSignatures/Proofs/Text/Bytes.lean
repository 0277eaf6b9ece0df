import Mathlib.Data.Char
import Mathlib.Data.String.Basic
import Mathlib.Data.UInt
import Mathlib.Tactic.SplitIfs

/-!
# The order of texts is the order of their bytes

Texts are compared character by character. Their UTF-8 encodings, compared byte by byte, stand in
the same order: where two characters differ first, the encoding of the smaller one is the smaller.

* `utf8` — the bytes of a text
* `utf8_eq_flatMap` — they are the bytes of its characters, one after the other
* `utf8_lt_utf8` — the bytes of a smaller text are smaller
* `utf8_injective` — texts with the same bytes are the same
-/

namespace GoSignatures

/-- The bytes of a text in UTF-8. -/
def utf8 (s : String) : List UInt8 :=
  s.toUTF8.data.toList

theorem utf8_eq_flatMap (s : String) : utf8 s = s.toList.flatMap String.utf8EncodeChar := by
  have h : s.toByteArray = s.toList.utf8Encode := by
    rw [← String.toByteArray_ofList, String.ofList_toList]
  rw [utf8, String.toUTF8_eq_toByteArray, h, List.utf8Encode, List.data_toByteArray]

/-- Whatever follows, the encoding of a smaller character is the smaller. -/
theorem utf8EncodeChar_append_lt {a b : Char} (h : a < b) (s t : List UInt8) :
    String.utf8EncodeChar a ++ s < String.utf8EncodeChar b ++ t := by
  have hlt : a.val.toNat < b.val.toNat := h
  have hbound : b.val.toNat < 1114112 := by
    have hvalid := b.valid
    simp only [UInt32.isValidChar, Nat.isValidChar] at hvalid
    omega
  rw [String.utf8EncodeChar.eq_def a, String.utf8EncodeChar.eq_def b]
  generalize a.val.toNat = m at hlt ⊢
  generalize b.val.toNat = n at hlt hbound ⊢
  simp only
  -- one case for each two lengths; the leading bytes decide unless the lengths are equal
  split_ifs
  all_goals
    simp (disch := omega) only [List.cons_append, List.nil_append, List.cons_lt_cons_iff,
      UInt8.lt_iff_toNat_lt, ← UInt8.toNat_inj, UInt8.toNat_ofNat', Nat.mod_eq_of_lt]
    omega

theorem flatMap_utf8EncodeChar_lt : ∀ {s t : List Char}, s < t →
    s.flatMap String.utf8EncodeChar < t.flatMap String.utf8EncodeChar
  | [], b :: t, _ => by
    obtain ⟨x, xs, hb⟩ : ∃ x xs, String.utf8EncodeChar b = x :: xs :=
      List.exists_cons_of_ne_nil String.utf8EncodeChar_ne_nil
    rw [List.flatMap_cons, hb]
    exact List.nil_lt_cons _ _
  | a :: s, b :: t, h => by
    rw [List.flatMap_cons, List.flatMap_cons]
    rcases List.cons_lt_cons_iff.mp h with hab | ⟨rfl, hst⟩
    · exact utf8EncodeChar_append_lt hab _ _
    · exact List.append_left_lt (flatMap_utf8EncodeChar_lt hst)

/-- Different characters have different bytes. -/
theorem flatMap_utf8EncodeChar_injective {s t : List Char}
    (h : s.flatMap String.utf8EncodeChar = t.flatMap String.utf8EncodeChar) : s = t := by
  rcases lt_trichotomy s t with hlt | heq | hgt
  · exact absurd (flatMap_utf8EncodeChar_lt hlt) (h ▸ List.lt_irrefl _)
  · exact heq
  · exact absurd (flatMap_utf8EncodeChar_lt hgt) (h ▸ List.lt_irrefl _)

/-- The order of texts is the order of their bytes. -/
theorem utf8_lt_utf8 {s t : String} (h : s < t) : utf8 s < utf8 t := by
  rw [utf8_eq_flatMap, utf8_eq_flatMap]
  exact flatMap_utf8EncodeChar_lt (String.lt_iff_toList_lt.mp h)

/-- Texts with the same bytes are the same. -/
theorem utf8_injective {s t : String} (h : utf8 s = utf8 t) : s = t := by
  rw [utf8_eq_flatMap, utf8_eq_flatMap] at h
  exact String.toList_injective (flatMap_utf8EncodeChar_injective h)

end GoSignatures
