import Unstack.Bytes
import Unstack.Proofs.EncodedText
import Unstack.Proofs.Numerals

/-!
# What hexadecimal texts are read as

A hexadecimal text is read exactly if two digits for each byte are left of it once blanks, tabs, line
feeds, form feeds and carriage returns are taken out, wherever these stand. Digits count in either case.
Everything else in a text makes it unreadable. In particular a character that is encoded in several bytes
does, so that it makes no difference whether a text is read by its characters or by its encoded bytes.
-/

namespace Unstack.Bytes

open Numeral

/-- The characters that may stand anywhere in a hexadecimal text. -/
def separators : List Char := [' ', '\t', '\n', '\x0c', '\r']

/-- The characters of a text that are left without the separators. -/
def unspaced (text : String) : List Char := text.toList.filter (· ∉ separators)

/-- The character is a hexadecimal digit of this value, in lower or in upper case. -/
def HexDigit (c : Char) (value : Nat) : Prop :=
  "0123456789abcdef".toList[value]? = some c ∨ "0123456789ABCDEF".toList[value]? = some c

/-- Digits spell bytes: each byte is two digits, the one for the upper half first. -/
inductive Spells : List Char → List UInt8 → Prop where
  | nil : Spells [] []
  | cons {high low : Char} {h l : Nat} {byte : UInt8} {digits : List Char} {bytes : List UInt8}
      (hhigh : HexDigit high h) (hlow : HexDigit low l) (hbyte : byte.toNat = 16 * h + l)
      (hrest : Spells digits bytes) : Spells (high :: low :: digits) (byte :: bytes)

/-- The second list is the first one with separators put in. -/
inductive Spaced : List Char → List Char → Prop where
  | nil : Spaced [] []
  | keep {digits text : List Char} (c : Char) (hrest : Spaced digits text) :
      Spaced (c :: digits) (c :: text)
  | insert {digits text : List Char} {c : Char} (hc : c ∈ separators) (hrest : Spaced digits text) :
      Spaced digits (c :: text)

/-- Bytes written as pairs of upper case digits. -/
def pairs (bytes : List UInt8) : List Char :=
  bytes.flatMap fun byte => [digitChar (byte.toNat / 16), digitChar (byte.toNat % 16)]

/-- A digit has a value below sixteen. -/
theorem HexDigit.lt {c : Char} {value : Nat} (h : HexDigit c value) : value < 16 := by
  rcases h with hlower | hupper
  · exact (List.getElem?_eq_some_iff.mp hlower).1
  · exact (List.getElem?_eq_some_iff.mp hupper).1

/-- A character between two others is counted from the first of them. -/
theorem exists_of_le_of_le {first c last : Char} (h : first ≤ c ∧ c ≤ last) :
    ∃ d ≤ last.toNat - first.toNat, c.toNat = d + first.toNat ∧ Char.ofNat (d + first.toNat) = c := by
  have hfirst : first.toNat ≤ c.toNat := UInt32.le_iff_toNat_le.mp (Char.le_def.mp h.1)
  have hlast : c.toNat ≤ last.toNat := UInt32.le_iff_toNat_le.mp (Char.le_def.mp h.2)
  have hcount : c.toNat - first.toNat + first.toNat = c.toNat := Nat.sub_add_cancel hfirst
  exact ⟨c.toNat - first.toNat, by omega, hcount.symm, by rw [hcount, Char.ofNat_toNat]⟩

/-- A character is read as a digit of the value that it has in one of the two rows of digits. -/
theorem HexDigit.digitValue_eq {c : Char} {value : Nat} (h : HexDigit c value) :
    digitValue c = some value := by
  have hlower : ∀ value < 16, "0123456789abcdef".toList[value]?.bind digitValue = some value := by
    decide
  have hupper : ∀ value < 16, "0123456789ABCDEF".toList[value]?.bind digitValue = some value := by
    decide
  have hvalue := h.lt
  rcases h with hc | hc
  · simpa only [hc, Option.bind_some] using hlower value hvalue
  · simpa only [hc, Option.bind_some] using hupper value hvalue

/-- A character that is read as a digit stands in one of the two rows of digits. -/
theorem hexDigit_of_digitValue {c : Char} {value : Nat} (h : digitValue c = some value) :
    HexDigit c value := by
  have hdecimal : ∀ d ≤ 9, HexDigit (Char.ofNat (d + 48)) (d + 48 - 48) := by
    unfold HexDigit
    decide
  have hlower : ∀ d ≤ 5, HexDigit (Char.ofNat (d + 97)) (d + 97 - 87) := by
    unfold HexDigit
    decide
  have hupper : ∀ d ≤ 5, HexDigit (Char.ofNat (d + 65)) (d + 65 - 55) := by
    unfold HexDigit
    decide
  unfold digitValue at h
  split at h
  · next hbounds =>
    obtain ⟨d, hd, hnat, rfl⟩ := exists_of_le_of_le hbounds
    rw [← Option.some.inj h, hnat]
    exact hdecimal d hd
  · split at h
    · next hbounds =>
      obtain ⟨d, hd, hnat, rfl⟩ := exists_of_le_of_le hbounds
      rw [← Option.some.inj h, hnat]
      exact hlower d hd
    · split at h
      · next hbounds =>
        obtain ⟨d, hd, hnat, rfl⟩ := exists_of_le_of_le hbounds
        rw [← Option.some.inj h, hnat]
        exact hupper d hd
      · cases h

/-- A character is read as a digit exactly if it is one of that value. -/
theorem digitValue_eq_some_iff (c : Char) (value : Nat) :
    digitValue c = some value ↔ HexDigit c value :=
  ⟨hexDigit_of_digitValue, HexDigit.digitValue_eq⟩

/-- A character is not read as a digit exactly if it is none. -/
theorem digitValue_eq_none_iff (c : Char) : digitValue c = none ↔ ∀ value, ¬HexDigit c value := by
  rw [Option.eq_none_iff_forall_ne_some]
  exact forall_congr' fun value => not_congr (digitValue_eq_some_iff c value)

/-- The characters that are skipped are the separators. -/
theorem isSeparator_iff (c : Char) : isSeparator c = true ↔ c ∈ separators := by
  simp [isSeparator, separators, or_assoc]

/-- What is read of a text is what is left without the separators. -/
theorem ofHex?_eq (text : String) : ofHex? text = ofDigits? (unspaced text) := by
  have hkept : (fun c => !isSeparator c) = fun c => decide (c ∉ separators) := by
    funext c
    rw [Bool.eq_iff_iff, Bool.not_eq_true', ← Bool.not_eq_true, isSeparator_iff, decide_eq_true_eq]
  rw [ofHex?, hkept, unspaced]

/-- Digits are read as the bytes that they spell. -/
theorem Spells.ofDigits?_eq {digits : List Char} {bytes : List UInt8} (h : Spells digits bytes) :
    ofDigits? digits = some bytes := by
  induction h with
  | nil => rfl
  | cons hhigh hlow hbyte hrest ih =>
    simp only [ofDigits?, hhigh.digitValue_eq, hlow.digitValue_eq, ih, ← hbyte, UInt8.ofNat_toNat]

/-- Digits that are read spell the bytes that they are read as. -/
theorem spells_of_ofDigits? {digits : List Char} {bytes : List UInt8}
    (h : ofDigits? digits = some bytes) : Spells digits bytes := by
  fun_induction ofDigits? digits generalizing bytes with
  | case1 =>
    cases h
    exact .nil
  | case2 => cases h
  | case3 high low rest upper lower bytes' hrest hlow hhigh ih =>
    cases h
    have hupper := (hexDigit_of_digitValue hhigh).lt
    have hlower := (hexDigit_of_digitValue hlow).lt
    refine .cons (hexDigit_of_digitValue hhigh) (hexDigit_of_digitValue hlow) ?_ (ih hrest)
    rw [UInt8.toNat_ofNat']
    omega
  | case4 => cases h

/-- Digits are read as bytes exactly if they spell them. -/
theorem ofDigits?_eq_some_iff (digits : List Char) (bytes : List UInt8) :
    ofDigits? digits = some bytes ↔ Spells digits bytes :=
  ⟨spells_of_ofDigits?, Spells.ofDigits?_eq⟩

/-- There are two digits for each byte. -/
theorem Spells.length_eq {digits : List Char} {bytes : List UInt8} (h : Spells digits bytes) :
    digits.length = 2 * bytes.length := by
  induction h with
  | nil => rfl
  | cons _ _ _ _ ih =>
    simp only [List.length_cons, ih]
    omega

/-- A pair and what follows it are refused if a character of the pair is no digit or the rest is
refused. -/
theorem ofDigits?_pair_eq_none_iff (high low : Char) (rest : List Char) :
    ofDigits? (high :: low :: rest) = none ↔
      digitValue high = none ∨ digitValue low = none ∨ ofDigits? rest = none := by
  rw [ofDigits?]
  cases digitValue high with
  | none => simp
  | some h =>
    cases digitValue low with
    | none => simp
    | some l =>
      cases ofDigits? rest with
      | none => simp
      | some bytes => simp

/-- Characters are refused exactly if there is an odd number of them or one of them is no digit. -/
theorem ofDigits?_eq_none_iff : ∀ digits : List Char,
    ofDigits? digits = none ↔ digits.length % 2 = 1 ∨ ∃ c ∈ digits, digitValue c = none
  | [] => by simp [ofDigits?]
  | [c] => by simp [ofDigits?]
  | high :: low :: rest => by
    have hparity : (rest.length + 1 + 1) % 2 = rest.length % 2 := Nat.add_mod_right rest.length 2
    rw [ofDigits?_pair_eq_none_iff, ofDigits?_eq_none_iff rest, List.length_cons, List.length_cons,
      hparity]
    simp only [List.mem_cons, exists_eq_or_imp]
    rw [← or_assoc, or_left_comm, or_assoc]

/-- The pairs of two rows of digits are those of both together. -/
theorem Spells.append {digits more : List Char} {bytes later : List UInt8} (h : Spells digits bytes)
    (hmore : Spells more later) : Spells (digits ++ more) (bytes ++ later) := by
  induction h with
  | nil => exact hmore
  | cons hhigh hlow hbyte _ ih => exact .cons hhigh hlow hbyte ih

/-- The pairs of bytes spell them. -/
theorem pairs_spells (bytes : List UInt8) : Spells (pairs bytes) bytes := by
  induction bytes with
  | nil => exact .nil
  | cons byte bytes ih =>
    have hbyte := byte.toNat_lt
    refine .cons (hexDigit_of_digitValue (digitValue_digitChar (byte.toNat / 16) (by omega)))
      (hexDigit_of_digitValue (digitValue_digitChar (byte.toNat % 16) (by omega))) ?_ ih
    omega

/-- A digit is no separator. -/
theorem HexDigit.not_mem_separators {c : Char} {value : Nat} (h : HexDigit c value) :
    c ∉ separators := by
  have hnone : separators.all (fun c => (digitValue c).isNone) = true := by decide
  intro hc
  have hread := List.all_eq_true.mp hnone c hc
  rw [h.digitValue_eq] at hread
  cases hread

/-- Digits that spell bytes are no separators. -/
theorem Spells.not_mem_separators {digits : List Char} {bytes : List UInt8} (h : Spells digits bytes) :
    ∀ c ∈ digits, c ∉ separators := by
  induction h with
  | nil => simp
  | cons hhigh hlow _ _ ih =>
    simp only [List.forall_mem_cons]
    exact ⟨hhigh.not_mem_separators, hlow.not_mem_separators, ih⟩

/-- Taking out the separators undoes putting them in. -/
theorem Spaced.filter_eq {digits text : List Char} (h : Spaced digits text)
    (hdigits : ∀ c ∈ digits, c ∉ separators) : text.filter (· ∉ separators) = digits := by
  induction h with
  | nil => rfl
  | keep c _ ih =>
    rw [List.forall_mem_cons] at hdigits
    rw [List.filter_cons_of_pos (by simpa using hdigits.1), ih hdigits.2]
  | insert hc _ ih =>
    rw [List.filter_cons_of_neg (by simpa using hc), ih hdigits]

/-- Bytes, each taken for a character by itself. -/
def characters (bytes : List UInt8) : List Char := bytes.map fun byte => Char.ofNat byte.toNat

/-- Reads a hexadecimal text from its encoded bytes. -/
def ofHexBytes? (bytes : List UInt8) : Option (List UInt8) :=
  ofDigits? ((characters bytes).filter (!isSeparator ·))

/-- A digit is one of the first 128 characters. -/
theorem HexDigit.toNat_lt {c : Char} {value : Nat} (h : HexDigit c value) : c.toNat < 128 := by
  have hdigits :
      ("0123456789abcdef".toList ++ "0123456789ABCDEF".toList).all (·.toNat < 128) = true := by
    decide
  have hc := List.mem_append.mpr (h.imp List.mem_of_getElem? List.mem_of_getElem?)
  exact of_decide_eq_true (List.all_eq_true.mp hdigits c hc)

/-- A character behind the first 128 is no digit. -/
theorem digitValue_of_le {c : Char} (h : 128 ≤ c.toNat) : digitValue c = none := by
  rw [digitValue_eq_none_iff]
  intro value hdigit
  exact Nat.not_lt.mpr h hdigit.toNat_lt

/-- A character behind the first 128 is no separator. -/
theorem isSeparator_of_le {c : Char} (h : 128 ≤ c.toNat) : isSeparator c = false := by
  have hseparators : separators.all (·.toNat < 128) = true := by decide
  rw [← Bool.not_eq_true, isSeparator_iff]
  intro hc
  exact Nat.not_lt.mpr h (of_decide_eq_true (List.all_eq_true.mp hseparators c hc))

/-- A text with a character behind the first 128 is refused. -/
theorem ofDigits?_of_le {chars : List Char} {c : Char} (hc : c ∈ chars) (h : 128 ≤ c.toNat) :
    ofDigits? (chars.filter (!isSeparator ·)) = none := by
  refine (ofDigits?_eq_none_iff _).mpr (.inr ⟨c, List.mem_filter.mpr ⟨hc, ?_⟩, digitValue_of_le h⟩)
  rw [isSeparator_of_le h]
  rfl

/-- One of the first 128 characters is encoded as itself. -/
theorem characters_utf8EncodeChar {c : Char} (h : c.toNat < 128) :
    characters (String.utf8EncodeChar c) = [c] := by
  rw [Text.utf8EncodeChar_of_lt h, characters, List.map_singleton, Text.toNat_ofNat_of_lt h,
    Char.ofNat_toNat]

/-- Characters among the first 128 are encoded as themselves. -/
theorem characters_flatMap_utf8EncodeChar {chars : List Char} (h : ∀ c ∈ chars, c.toNat < 128) :
    characters (chars.flatMap String.utf8EncodeChar) = chars := by
  induction chars with
  | nil => rfl
  | cons c chars ih =>
    rw [List.forall_mem_cons] at h
    have hfirst := characters_utf8EncodeChar h.1
    have hrest := ih h.2
    unfold characters at hfirst hrest ⊢
    rw [List.flatMap_cons, List.map_append, hfirst, hrest, List.singleton_append]

/-- A character behind the first 128 leaves such a character among its encoded bytes. -/
theorem exists_mem_characters {chars : List Char} {c : Char} (hc : c ∈ chars) (h : 128 ≤ c.toNat) :
    ∃ d ∈ characters (chars.flatMap String.utf8EncodeChar), 128 ≤ d.toNat := by
  obtain ⟨byte, rest, hbytes⟩ :=
    List.exists_cons_of_ne_nil (String.utf8EncodeChar_ne_nil : String.utf8EncodeChar c ≠ [])
  have hbyte : byte ∈ String.utf8EncodeChar c := hbytes ▸ List.mem_cons_self
  have hsmall : byte.toNat.isValidChar := .inl (Nat.lt_trans byte.toNat_lt (by decide))
  have hnat : (Char.ofNat byte.toNat).toNat = byte.toNat := by
    rw [Char.ofNat, dif_pos hsmall]
    rfl
  refine ⟨Char.ofNat byte.toNat, List.mem_map_of_mem (List.mem_flatMap.mpr ⟨c, hc, hbyte⟩), ?_⟩
  rw [hnat]
  exact Text.le_of_mem_utf8EncodeChar h byte hbyte

/-- A text is read from its encoded bytes as it is read from its characters. -/
theorem ofHex?_eq_ofHexBytes? (text : String) :
    ofHex? text = ofHexBytes? (Text.encoded text) := by
  rw [Text.encoded_eq, ofHex?, ofHexBytes?]
  by_cases hascii : ∀ c ∈ text.toList, c.toNat < 128
  · rw [characters_flatMap_utf8EncodeChar hascii]
  · -- both ways of reading meet a character that is no digit
    obtain ⟨c, hc, hlarge⟩ : ∃ c ∈ text.toList, 128 ≤ c.toNat := by
      simpa using hascii
    obtain ⟨d, hd, hlarge'⟩ := exists_mem_characters hc hlarge
    rw [ofDigits?_of_le hc hlarge, ofDigits?_of_le hd hlarge']

/-- How a text is read as bytes. -/
structure ReadsHex (text : String) : Prop where
  /-- The text is read as the bytes that it spells without the separators. -/
  accepted : ∀ bytes, ofHex? text = some bytes ↔ Spells (unspaced text) bytes
  /-- Two characters are left of the text for each byte. -/
  counted : ∀ bytes, ofHex? text = some bytes → (unspaced text).length = 2 * bytes.length
  /-- A text is refused for an odd number of characters or for one that is no digit. -/
  refused : ofHex? text = none ↔
    (unspaced text).length % 2 = 1 ∨ ∃ c ∈ unspaced text, ∀ value, ¬HexDigit c value
  /-- The encoded bytes of the text are read as its characters are. -/
  encoded : ofHex? text = ofHexBytes? (Text.encoded text)
  /-- Bytes in any spelling are read back, with separators anywhere in it. -/
  respelled : ∀ digits bytes, Spells digits bytes → Spaced digits text.toList →
    ofHex? text = some bytes
  /-- Bytes that are written as pairs are read back, with separators anywhere among them. -/
  written : ∀ bytes, Spaced (pairs bytes) text.toList → ofHex? text = some bytes
  /-- Two texts that are read are read one after the other. -/
  joined : ∀ more bytes later, ofHex? text = some bytes → ofHex? more = some later →
    ofHex? (text ++ more) = some (bytes ++ later)

/-- A text is read as the bytes that it spells without the separators. -/
theorem ofHex?_eq_some_iff (text : String) (bytes : List UInt8) :
    ofHex? text = some bytes ↔ Spells (unspaced text) bytes := by
  rw [ofHex?_eq, ofDigits?_eq_some_iff]

/-- A spelling with separators put in is read. -/
theorem ofHex?_of_spaced {text : String} {digits : List Char} {bytes : List UInt8}
    (hspells : Spells digits bytes) (hspaced : Spaced digits text.toList) :
    ofHex? text = some bytes := by
  rw [ofHex?_eq_some_iff, unspaced, hspaced.filter_eq hspells.not_mem_separators]
  exact hspells

/-- Every text is read by the grammar of digit pairs. -/
theorem text_readsHex (text : String) : ReadsHex text where
  accepted := ofHex?_eq_some_iff text
  counted bytes h := ((ofHex?_eq_some_iff text bytes).mp h).length_eq
  refused := by
    simp only [ofHex?_eq, ofDigits?_eq_none_iff, digitValue_eq_none_iff]
  encoded := ofHex?_eq_ofHexBytes? text
  respelled digits bytes := ofHex?_of_spaced
  written bytes := ofHex?_of_spaced (pairs_spells bytes)
  joined more bytes later h hmore := by
    rw [ofHex?_eq_some_iff] at h hmore ⊢
    rw [unspaced, String.toList_append, List.filter_append]
    exact h.append hmore

/-- Separators may part the two digits of a byte. A character that is encoded in two bytes spells
nothing, neither by itself nor in its bytes. -/
theorem partedPairs_readsHex :
    ofHex? "0\tA f\nF\r" = some [10, 255] ∧ ofHex? "é0" = none ∧ ofHex? "é" = none := by
  have hletter : ∀ value, ¬HexDigit 'é' value := (digitValue_eq_none_iff 'é').mp (by decide)
  refine ⟨(text_readsHex _).respelled ['0', 'A', 'f', 'F'] [10, 255] ?_ ?_,
    (text_readsHex _).refused.mpr (.inr ⟨'é', by decide, hletter⟩),
    (text_readsHex _).refused.mpr (.inl (by decide))⟩
  · exact .cons (h := 0) (l := 10) (.inl rfl) (.inr rfl) rfl
      (.cons (h := 15) (l := 15) (.inl rfl) (.inr rfl) rfl .nil)
  · exact .keep '0' (.insert (by decide) (.keep 'A' (.insert (by decide) (.keep 'f'
      (.insert (by decide) (.keep 'F' (.insert (by decide) .nil)))))))

end Unstack.Bytes
