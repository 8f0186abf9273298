import Unstack.Token
import Unstack.Proofs.HexText
import Mathlib.Data.List.Forall2
import Mathlib.Data.List.TakeWhile
import Mathlib.Data.Nat.Digits.Defs

/-!
# What token texts are read as

A token is read from a numeral with white space around it: a hexadecimal one behind `0x` or `0X`, else a
decimal one, with at most one plus sign before its digits and with a value below 2^32. The reader checks
the value against this bound digit by digit. That refuses nothing else, since the first digits of a
numeral never have a greater value than all of them, so that zeros in front do no harm however many there
are. The text that is written for a token is among those that are read.
-/

namespace Unstack

namespace Text

/-- The characters with the property White_Space, by their code points. -/
def whiteSpace : List Nat :=
  [0x9, 0xA, 0xB, 0xC, 0xD, 0x20, 0x85, 0xA0, 0x1680, 0x2000, 0x2001, 0x2002, 0x2003, 0x2004, 0x2005,
    0x2006, 0x2007, 0x2008, 0x2009, 0x200A, 0x2028, 0x2029, 0x202F, 0x205F, 0x3000]

/-- The core of a text is what is left of it without the white space at its two ends. -/
structure Trims (text core : List Char) : Prop where
  parts : ∃ front back, text = front ++ core ++ back ∧ (∀ c ∈ front, c.toNat ∈ whiteSpace) ∧
    ∀ c ∈ back, c.toNat ∈ whiteSpace
  first : ∀ c ∈ core.head?, c.toNat ∉ whiteSpace
  last : ∀ c ∈ core.getLast?, c.toNat ∉ whiteSpace

/-- The characters that are trimmed are the white space. -/
theorem isBlank_iff (c : Char) : isBlank c = true ↔ c.toNat ∈ whiteSpace := by
  have hranges : whiteSpace = List.range' 0x9 5 ++ [0x20, 0x85, 0xA0, 0x1680] ++
      List.range' 0x2000 11 ++ [0x2028, 0x2029, 0x202F, 0x205F, 0x3000] := rfl
  have hcontrols : c.toNat < 0x9 + 5 ↔ c.toNat ≤ 13 := Nat.lt_succ_iff
  have hspaces : c.toNat < 0x2000 + 11 ↔ c.toNat ≤ 0x200A := Nat.lt_succ_iff
  simp only [hranges, isBlank, Bool.or_eq_true, Bool.and_eq_true, decide_eq_true_eq, beq_iff_eq,
    List.mem_append, List.mem_range'_1, List.mem_cons, List.not_mem_nil, hcontrols, hspaces, or_assoc,
    or_false]

/-- What is left behind the first items of a kind does not start with one of that kind. -/
theorem dropWhile_eq_iff {α : Type} (kind : α → Bool) (items rest : List α) :
    items.dropWhile kind = rest ↔ ∃ front, items = front ++ rest ∧ (∀ a ∈ front, kind a = true) ∧
      ∀ a ∈ rest.head?, ¬kind a = true := by
  constructor
  · rintro rfl
    refine ⟨items.takeWhile kind, List.takeWhile_append_dropWhile.symm,
      fun a ha => List.mem_takeWhile_imp ha, fun a ha => ?_⟩
    have hkind := List.head?_dropWhile_not kind items
    rw [Option.mem_def.mp ha] at hkind
    simpa using hkind
  · rintro ⟨front, rfl, hfront, hrest⟩
    rw [List.dropWhile_append_of_pos hfront]
    cases rest with
    | nil => rfl
    | cons a rest => exact List.dropWhile_cons_of_neg (hrest a rfl)

/-- Trimming leaves what is between the white space at the two ends. -/
theorem trim_eq_iff_dropWhile (text core : List Char) :
    trim text = core ↔ ∃ back, text.dropWhile isBlank = core ++ back ∧
      (∀ c ∈ back, isBlank c = true) ∧ ∀ c ∈ core.getLast?, ¬isBlank c = true := by
  rw [trim, List.reverse_eq_iff, dropWhile_eq_iff, List.head?_reverse]
  constructor
  · rintro ⟨back, hparts, hback, hlast⟩
    rw [List.reverse_eq_iff, List.reverse_append, List.reverse_reverse] at hparts
    exact ⟨back.reverse, hparts, fun c hc => hback c (List.mem_reverse.mp hc), hlast⟩
  · rintro ⟨back, hparts, hback, hlast⟩
    refine ⟨back.reverse, ?_, fun c hc => hback c (List.mem_reverse.mp hc), hlast⟩
    rw [hparts, List.reverse_append]

/-- Trimming leaves the core of a text. -/
theorem trim_eq_iff (text core : List Char) : trim text = core ↔ Trims text core := by
  rw [trim_eq_iff_dropWhile]
  simp only [dropWhile_eq_iff, isBlank_iff]
  constructor
  · rintro ⟨back, ⟨front, htext, hfront, hfirst⟩, hback, hlast⟩
    refine ⟨⟨front, back, by rw [htext, List.append_assoc], hfront, hback⟩, ?_, hlast⟩
    intro c hc
    exact hfirst c (List.head?_append_of_ne_nil _ (List.ne_nil_of_mem (List.mem_of_mem_head? hc)) ▸ hc)
  · rintro ⟨⟨front, back, htext, hfront, hback⟩, hfirst, hlast⟩
    cases core with
    | nil =>
      -- all of the text is white space, and all of it is dropped from the front
      refine ⟨[], ⟨text, by simp, fun c hc => ?_, by simp⟩, by simp, hlast⟩
      rw [htext, List.append_nil, List.mem_append] at hc
      exact hc.elim (hfront c) (hback c)
    | cons c core =>
      exact ⟨back, ⟨front, by rw [htext, List.append_assoc], hfront, hfirst⟩, hback, hlast⟩

end Text

namespace Numeral

open Bytes (HexDigit)

/-- The characters are digits of a base, and their value by position is `value`. -/
def Spells (base : Nat) (text : List Char) (value : Nat) : Prop :=
  ∃ digits : List Nat, List.Forall₂ (fun c d => HexDigit c d ∧ d < base) text digits ∧
    value = Nat.ofDigits base digits.reverse

/-- The text is one or more digits of a base, with or without a plus sign before them. -/
def IsNumeral (base : Nat) (text : List Char) (value : Nat) : Prop :=
  ∃ digits, digits ≠ [] ∧ (text = digits ∨ text = '+' :: digits) ∧ Spells base digits value

/-- The characters are digits of a base that continue a numeral of value `start` to one of `value`. -/
def Continues (base start : Nat) (text : List Char) (value : Nat) : Prop :=
  ∃ digits : List Nat, List.Forall₂ (fun c d => HexDigit c d ∧ d < base) text digits ∧
    value = Nat.ofDigits base (digits.reverse ++ [start])

variable {base bound : Nat}

/-- A character is read as a digit of a base exactly if it is one. -/
theorem digitValueBelow_eq_some_iff (base : Nat) (c : Char) (d : Nat) :
    digitValueBelow base c = some d ↔ HexDigit c d ∧ d < base := by
  rw [digitValueBelow, Option.filter_eq_some_iff, Bytes.digitValue_eq_some_iff, decide_eq_true_eq]

/-- Digits that continue nothing spell their value. -/
theorem continues_zero_iff (base : Nat) (text : List Char) (value : Nat) :
    Continues base 0 text value ↔ Spells base text value := by
  simp only [Continues, Spells, Nat.ofDigits_append_zero]

/-- Without further digits a numeral keeps its value. -/
theorem continues_nil_iff (base start value : Nat) : Continues base start [] value ↔ value = start := by
  simp [Continues]

/-- A first digit moves the value of a numeral up by a place and is added to it. -/
theorem continues_cons_iff (base start : Nat) (c : Char) (rest : List Char) (value : Nat) :
    Continues base start (c :: rest) value ↔
      ∃ d, (HexDigit c d ∧ d < base) ∧ Continues base (start * base + d) rest value := by
  have hcarry (d : Nat) (low : List Nat) : Nat.ofDigits base ((d :: low).reverse ++ [start]) =
      Nat.ofDigits base (low.reverse ++ [start * base + d]) := by
    simp only [List.reverse_cons, List.append_assoc, List.singleton_append, Nat.ofDigits_append,
      Nat.ofDigits_cons, Nat.ofDigits_nil, Nat.mul_zero, Nat.add_zero]
    rw [Nat.mul_comm start base, Nat.add_comm d]
  simp only [Continues, List.forall₂_cons_left_iff]
  constructor
  · rintro ⟨_, ⟨d, digits, hd, hrest, rfl⟩, rfl⟩
    exact ⟨d, hd, digits, hrest, hcarry d digits⟩
  · rintro ⟨d, hd, digits, hrest, rfl⟩
    exact ⟨_, ⟨d, digits, hd, hrest, rfl⟩, (hcarry d digits).symm⟩

/-- A numeral does not get smaller when it is continued. -/
theorem Continues.le (hbase : 0 < base) {start value : Nat} {text : List Char}
    (h : Continues base start text value) : start ≤ value := by
  obtain ⟨digits, -, rfl⟩ := h
  rw [Nat.ofDigits_append, Nat.ofDigits_singleton]
  have hplace : 0 < base ^ digits.reverse.length := Nat.pow_pos hbase
  exact Nat.le_trans (Nat.le_mul_of_pos_left start hplace) (Nat.le_add_left _ _)

/-- Digits are read exactly up to the values below the bound. -/
theorem readDigits_eq_ok_iff (hbase : 0 < base) {start : Nat} (hstart : start < bound)
    (text : List Char) (value : Nat) :
    readDigits base bound start text = .ok value ↔ value < bound ∧ Continues base start text value := by
  -- on the digits that are left, whatever was read before them
  induction text generalizing start with
  | nil =>
    rw [continues_nil_iff, readDigits, Except.ok.injEq]
    constructor
    · rintro rfl
      exact ⟨hstart, rfl⟩
    · rintro ⟨-, rfl⟩
      rfl
  | cons c rest ih =>
    rw [continues_cons_iff, readDigits]
    cases hdigit : digitValueBelow base c with
    | none =>
      refine iff_of_false (by simp) ?_
      rintro ⟨-, d, hd, -⟩
      rw [(digitValueBelow_eq_some_iff base c d).mpr hd] at hdigit
      cases hdigit
    | some d =>
      have hd : ∀ d', HexDigit c d' ∧ d' < base ↔ d = d' := fun d' => by
        rw [← digitValueBelow_eq_some_iff, hdigit, Option.some.injEq]
      simp only [hd, exists_eq_left']
      by_cases hfits : start * base + d < bound
      · rw [if_pos hfits, ih hfits]
      · -- the digits behind this one do not take the value below the bound again
        rw [if_neg hfits]
        refine iff_of_false (by simp) ?_
        rintro ⟨hvalue, hrest⟩
        exact hfits (Nat.lt_of_le_of_lt (hrest.le hbase) hvalue)

/-- Digits do not start with a plus sign. -/
theorem Spells.ne_plus {text : List Char} {value : Nat} (h : Spells base text value)
    (rest : List Char) : text ≠ '+' :: rest := by
  rintro rfl
  obtain ⟨_, hdigits, -⟩ := h
  obtain ⟨d, _, hplus, -⟩ := List.forall₂_cons_left_iff.mp hdigits
  exact (Bytes.digitValue_eq_none_iff '+').mp (by decide) d hplus.1

/-- Behind a plus sign there must be digits. -/
theorem isNumeral_plus_iff (base : Nat) (rest : List Char) (value : Nat) :
    IsNumeral base ('+' :: rest) value ↔ rest ≠ [] ∧ Spells base rest value := by
  constructor
  · rintro ⟨digits, hne, rfl | hrest, hdigits⟩
    · exact absurd rfl (hdigits.ne_plus rest)
    · obtain rfl := List.cons.inj hrest |>.2
      exact ⟨hne, hdigits⟩
  · rintro ⟨hne, hdigits⟩
    exact ⟨rest, hne, .inr rfl, hdigits⟩

/-- A text without a plus sign in front must be digits. -/
theorem isNumeral_iff_of_ne_plus (base : Nat) {text : List Char} (h : ∀ rest, text ≠ '+' :: rest)
    (value : Nat) : IsNumeral base text value ↔ text ≠ [] ∧ Spells base text value := by
  constructor
  · rintro ⟨digits, hne, rfl | htext, hdigits⟩
    · exact ⟨hne, hdigits⟩
    · exact absurd htext (h digits)
  · rintro ⟨hne, hdigits⟩
    exact ⟨text, hne, .inl rfl, hdigits⟩

/-- Numerals are read exactly if their value is below the bound. -/
theorem read_eq_ok_iff (hbase : 0 < base) (hbound : 0 < bound) (text : List Char) (value : Nat) :
    read base bound text = .ok value ↔ value < bound ∧ IsNumeral base text value := by
  fun_cases read base bound text with
  | case1 =>
    rw [isNumeral_iff_of_ne_plus base (by simp)]
    simp
  | case2 =>
    rw [isNumeral_plus_iff]
    simp
  | case3 rest hne =>
    rw [readDigits_eq_ok_iff hbase hbound, continues_zero_iff, isNumeral_plus_iff,
      and_iff_right (show rest ≠ [] from hne)]
  | case4 text hne _ hplus =>
    rw [readDigits_eq_ok_iff hbase hbound, continues_zero_iff, isNumeral_iff_of_ne_plus base hplus,
      and_iff_right (show text ≠ [] from hne)]

end Numeral

namespace Token

open Numeral

/-- What may stand before a hexadecimal numeral. -/
def hexMarks : List (List Char) := [['0', 'x'], ['0', 'X']]

/-- What a text stands for that has no white space at its ends. -/
inductive Denotes : List Char → Nat → Prop where
  | hexadecimal {mark digits : List Char} {value : Nat} (hmark : mark ∈ hexMarks)
      (hdigits : IsNumeral 16 digits value) : Denotes (mark ++ digits) value
  | decimal {digits : List Char} {value : Nat} (hmark : ∀ mark ∈ hexMarks, ¬mark <+: digits)
      (hdigits : IsNumeral 10 digits value) : Denotes digits value

/-- The numeral in a text is what is behind a mark, or all of it. -/
theorem numeral_cases (text : List Char) :
    (∃ mark ∈ hexMarks, ∃ digits, text = mark ++ digits ∧ numeral text = (16, digits)) ∨
      (∀ mark ∈ hexMarks, ¬mark <+: text) ∧ numeral text = (10, text) := by
  fun_cases numeral text with
  | case1 digits => exact .inl ⟨['0', 'x'], by decide, digits, rfl, rfl⟩
  | case2 digits => exact .inl ⟨['0', 'X'], by decide, digits, rfl, rfl⟩
  | case3 _ hlower hupper =>
    refine .inr ⟨?_, rfl⟩
    simp only [hexMarks, List.forall_mem_cons, List.not_mem_nil, false_imp_iff, implies_true, and_true]
    constructor
    · rintro ⟨digits, rfl⟩
      exact hlower digits rfl
    · rintro ⟨digits, rfl⟩
      exact hupper digits rfl

/-- The base of a numeral is not zero. -/
theorem base_pos (text : List Char) : 0 < (numeral text).1 := by
  rcases numeral_cases text with ⟨_, -, _, -, hnumeral⟩ | ⟨-, hnumeral⟩
  · simp [hnumeral]
  · simp [hnumeral]

/-- A text stands for the value of its numeral. -/
theorem denotes_iff (text : List Char) (value : Nat) :
    Denotes text value ↔ IsNumeral (numeral text).1 (numeral text).2 value := by
  constructor
  · intro h
    cases h with
    | hexadecimal hmark hdigits =>
      simp only [hexMarks, List.mem_cons, List.not_mem_nil, or_false] at hmark
      rcases hmark with rfl | rfl
      · exact hdigits
      · exact hdigits
    | decimal hmark hdigits =>
      rcases numeral_cases text with ⟨mark, hmem, digits, rfl, -⟩ | ⟨-, hnumeral⟩
      · exact absurd (List.prefix_append mark digits) (hmark mark hmem)
      · rwa [hnumeral]
  · intro h
    rcases numeral_cases text with ⟨mark, hmem, digits, rfl, hnumeral⟩ | ⟨hmark, hnumeral⟩
    · rw [hnumeral] at h
      exact .hexadecimal hmem h
    · rw [hnumeral] at h
      exact .decimal hmark h

/-- The numeral in a text is read as what the text stands for, below 2^32. -/
theorem read_numeral_eq_ok_iff (text : List Char) (value : Nat) :
    read (numeral text).1 (2 ^ 32) (numeral text).2 = .ok value ↔
      value < 2 ^ 32 ∧ Denotes text value := by
  rw [denotes_iff, read_eq_ok_iff (base_pos text) (by decide)]

/-- A token is read exactly from what stands for its value between white space. -/
theorem parse_eq_ok_iff (text : String) (token : Token) :
    parse text = .ok token ↔ ∃ core value, Text.Trims text.toList core ∧ Denotes core value ∧
      value < 2 ^ 32 ∧ token.value.toNat = value := by
  obtain ⟨core, hcore⟩ : ∃ core, Text.trim text.toList = core := ⟨_, rfl⟩
  have hparse : parse text =
      (read (numeral core).1 (2 ^ 32) (numeral core).2).map fun n => ⟨UInt32.ofNat n⟩ := by
    rw [← hcore]
    rfl
  rw [hparse]
  constructor
  · intro h
    cases hresult : read (numeral core).1 (2 ^ 32) (numeral core).2 with
    | error fault =>
      rw [hresult] at h
      cases h
    | ok value =>
      rw [hresult] at h
      cases h
      obtain ⟨hvalue, hdenotes⟩ := (read_numeral_eq_ok_iff core value).mp hresult
      exact ⟨core, value, (Text.trim_eq_iff _ _).mp hcore, hdenotes, hvalue,
        UInt32.toNat_ofNat_of_lt' hvalue⟩
  · rintro ⟨other, value, htrims, hdenotes, hvalue, rfl⟩
    obtain rfl := hcore.symm.trans ((Text.trim_eq_iff _ _).mpr htrims)
    rw [(read_numeral_eq_ok_iff _ _).mpr ⟨hvalue, hdenotes⟩]
    simp [Except.map]

/-- The text of a token is a mark and its digits. -/
theorem toList_text (token : Token) :
    token.text.toList = ['0', 'x'] ++ padded 16 8 token.value.toNat := by
  simp [text, hexadecimal]

/-- There is no white space in the text of a token. -/
theorem not_whiteSpace_of_mem_text {token : Token} {c : Char} (hc : c ∈ token.text.toList) :
    c.toNat ∉ Text.whiteSpace := by
  have hmarks : ['0', 'x'].all (Text.isBlank · == false) = true := by decide
  have hdigits : ∀ d < 16, Text.isBlank (digitChar d) = false := by decide
  rw [← Text.isBlank_iff, Bool.not_eq_true]
  rw [toList_text, padded, List.mem_append, List.mem_append] at hc
  rcases hc with hmark | hzero | hdigit
  · exact beq_iff_eq.mp (List.all_eq_true.mp hmarks c hmark)
  · obtain rfl := List.eq_of_mem_replicate hzero
    exact hdigits 0 (by decide)
  · obtain ⟨d, hd, rfl⟩ := exists_digit_of_mem (by decide) hdigit
    exact hdigits d hd

/-- The text of a token stands for its value. -/
theorem denotes_text (token : Token) : Denotes token.text.toList token.value.toNat := by
  have hvalue := token.value.toNat_lt
  have hdigits := readDigits_padded (show 2 ≤ 16 by decide) (Nat.le_refl 16) 8 hvalue
  rw [readDigits_eq_ok_iff (by decide) (by decide), continues_zero_iff] at hdigits
  rw [toList_text]
  refine .hexadecimal (by decide) ⟨_, ?_, .inl rfl, hdigits.2⟩
  exact List.append_ne_nil_of_right_ne_nil _ (digits_ne_nil 16 _)

/-- Token texts are read by the grammar of numerals, and what is written for a token is read back. -/
theorem parse_readsTokens :
    (∀ (text : String) (token : Token), parse text = .ok token ↔
      ∃ core value, Text.Trims text.toList core ∧ Denotes core value ∧ value < 2 ^ 32 ∧
        token.value.toNat = value) ∧
      ∀ token : Token, parse token.text = .ok token := by
  refine ⟨parse_eq_ok_iff, fun token => ?_⟩
  rw [parse_eq_ok_iff]
  refine ⟨token.text.toList, token.value.toNat, ⟨⟨[], [], ?_, ?_, ?_⟩, ?_, ?_⟩, denotes_text token,
    token.value.toNat_lt, rfl⟩
  · simp
  · simp
  · simp
  · intro c hc
    exact not_whiteSpace_of_mem_text (List.mem_of_mem_head? hc)
  · intro c hc
    exact not_whiteSpace_of_mem_text (List.mem_of_mem_getLast? hc)

/-- Zeros in front count for nothing up to the greatest value, and the next value is refused. -/
example : parse "\u30000X+00000000000FFFFFFFF\u2028" = .ok ⟨0xFFFFFFFF⟩ ∧
    parse "+4294967296" = .error .tooLarge := by
  decide +kernel

end Token

end Unstack
