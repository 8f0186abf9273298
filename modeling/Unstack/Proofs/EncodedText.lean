import Mathlib.Data.List.Basic

/-!
# Texts as bytes

A text is encoded character by character. The first 128 characters are encoded as themselves, each in one
byte. The bytes of all others are above 127, so that none of the first 128 characters is seen in them.
-/

namespace Unstack.Text

/-- The bytes that a text is encoded in. -/
def encoded (text : String) : List UInt8 := text.toByteArray.data.toList

/-- A text is encoded character by character. -/
theorem encoded_eq (text : String) : encoded text = text.toList.flatMap String.utf8EncodeChar := by
  rw [encoded, ← String.utf8Encode_toList, List.utf8Encode, List.toList_data_toByteArray]

/-- The bytes of texts that follow each other follow each other. -/
theorem encoded_append (s t : String) : encoded (s ++ t) = encoded s ++ encoded t := by
  rw [encoded_eq, encoded_eq, encoded_eq, String.toList_append, List.flatMap_append]

/-- One of the first 128 characters is encoded in one byte. -/
theorem utf8EncodeChar_of_lt {c : Char} (h : c.toNat < 128) :
    String.utf8EncodeChar c = [UInt8.ofNat c.toNat] :=
  if_pos (Nat.le_of_lt_succ h)

/-- The byte of one of the first 128 characters has its number. -/
theorem toNat_ofNat_of_lt {c : Char} (h : c.toNat < 128) : (UInt8.ofNat c.toNat).toNat = c.toNat := by
  rw [UInt8.toNat_ofNat']
  omega

/-- A character behind the first 128 is encoded in bytes above 127. -/
theorem le_of_mem_utf8EncodeChar {c : Char} (h : 128 ≤ c.toNat) :
    ∀ byte ∈ String.utf8EncodeChar c, 128 ≤ byte.toNat := by
  have hval : 128 ≤ c.val.toNat := h
  simp only [String.utf8EncodeChar]
  split
  · omega
  · split
    · simp only [List.forall_mem_cons, UInt8.toNat_ofNat']
      exact ⟨by omega, by omega, by simp⟩
    · split
      · simp only [List.forall_mem_cons, UInt8.toNat_ofNat']
        exact ⟨by omega, by omega, by omega, by simp⟩
      · simp only [List.forall_mem_cons, UInt8.toNat_ofNat']
        exact ⟨by omega, by omega, by omega, by omega, by simp⟩

/-- A bound below all bytes of a text is below all its characters. -/
theorem lt_of_mem_of_encoded {bound : Nat} (hbound : bound < 128) {text : String}
    (h : ∀ byte ∈ encoded text, bound < byte.toNat) : ∀ c ∈ text.toList, bound < c.toNat := by
  intro c hc
  rcases Nat.lt_or_ge c.toNat 128 with hsmall | hlarge
  · have hmem : UInt8.ofNat c.toNat ∈ encoded text := by
      rw [encoded_eq, List.mem_flatMap]
      exact ⟨c, hc, by rw [utf8EncodeChar_of_lt hsmall]; exact List.mem_cons_self⟩
    have hbyte := h _ hmem
    rwa [toNat_ofNat_of_lt hsmall] at hbyte
  · exact Nat.lt_of_lt_of_le hbound hlarge

end Unstack.Text
