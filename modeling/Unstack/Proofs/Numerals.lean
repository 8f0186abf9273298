import Unstack.Text.Numeral

/-!
# Numerals are read back

The digits that are written for a natural are read back as that natural, with any number of zeros before
them, as long as it is below the bound of the reader. So a numeral is written for one natural only.
-/

namespace Unstack.Numeral

/-- The character of a digit has the value of the digit. -/
theorem digitValue_digitChar : ∀ d < 16, digitValue (digitChar d) = some d := by decide

/-- The character of a digit of a base is read as that digit. -/
theorem digitValueBelow_digitChar {base d : Nat} (hbase : base ≤ 16) (hd : d < base) :
    digitValueBelow base (digitChar d) = some d := by
  rw [digitValueBelow, digitValue_digitChar d (Nat.lt_of_lt_of_le hd hbase), Option.filter_some,
    if_pos (decide_eq_true hd)]

/-- A numeral is made of digits of its base. -/
theorem exists_digit_of_mem {base : Nat} (htwo : 2 ≤ base) {n : Nat} {c : Char}
    (hc : c ∈ digits base n) : ∃ d < base, digitChar d = c := by
  fun_induction digits base n with
  | case1 n hlt => exact ⟨n, by omega, (List.mem_singleton.mp hc).symm⟩
  | case2 n _ ih =>
    rcases List.mem_append.mp hc with hfront | hlast
    · exact ih hfront
    · exact ⟨n % base, Nat.mod_lt n (by omega), (List.mem_singleton.mp hlast).symm⟩

/-- A numeral has a digit. -/
theorem digits_ne_nil (base n : Nat) : digits base n ≠ [] := by
  unfold digits
  split <;> simp

variable {base bound : Nat}

/-- Digits are read one after the other. -/
theorem readDigits_append (value : Nat) (front back : List Char) :
    readDigits base bound value (front ++ back) =
      readDigits base bound value front >>= fun left => readDigits base bound left back := by
  induction front generalizing value with
  | nil => rfl
  | cons c front ih =>
    simp only [List.cons_append, readDigits]
    cases digitValueBelow base c with
    | none => rfl
    | some d =>
      by_cases hfits : value * base + d < bound
      · simp only [if_pos hfits, ih]
      · simp only [if_neg hfits]
        rfl

/-- One more digit is read onto a value if there is room for it. -/
theorem readDigits_digit (hbase : base ≤ 16) (value : Nat) {d : Nat} (hd : d < base)
    (hfits : value * base + d < bound) :
    readDigits base bound value [digitChar d] = .ok (value * base + d) := by
  simp [readDigits, digitValueBelow_digitChar hbase hd, hfits]

/-- The digits of a natural below the bound are read back. -/
theorem readDigits_digits (htwo : 2 ≤ base) (hbase : base ≤ 16) {n : Nat} (hn : n < bound) :
    readDigits base bound 0 (digits base n) = .ok n := by
  fun_induction digits base n with
  | case1 n hlt =>
    have hread : readDigits base bound 0 [digitChar n] = .ok (0 * base + n) :=
      readDigits_digit hbase 0 (by omega) (by omega)
    rwa [Nat.zero_mul, Nat.zero_add] at hread
  | case2 n hge ih =>
    have hsplit : n / base * base + n % base = n := Nat.div_add_mod' n base
    have hfront : n / base < bound := Nat.lt_of_le_of_lt (Nat.div_le_self n base) hn
    have hlast := readDigits_digit hbase (n / base) (Nat.mod_lt n (by omega)) (hsplit.symm ▸ hn)
    rw [readDigits_append, ih hfront]
    exact hlast.trans (congrArg Except.ok hsplit)

/-- Zeros before a numeral do not count. -/
theorem readDigits_zeros (htwo : 2 ≤ base) (hbase : base ≤ 16) (hbound : 0 < bound) (count : Nat)
    (text : List Char) :
    readDigits base bound 0 (List.replicate count '0' ++ text) = readDigits base bound 0 text := by
  induction count with
  | zero => rfl
  | succ count ih =>
    have hzero : readDigits base bound 0 ['0'] = .ok (0 * base + 0) :=
      readDigits_digit hbase 0 (show 0 < base by omega) (by omega)
    rw [Nat.zero_mul] at hzero
    rw [List.replicate_succ, List.cons_append, ← List.singleton_append, readDigits_append, hzero]
    exact ih

/-- The digits of a natural below the bound are read back from behind zeros. -/
theorem readDigits_padded (htwo : 2 ≤ base) (hbase : base ≤ 16) (width : Nat) {n : Nat}
    (hn : n < bound) : readDigits base bound 0 (padded base width n) = .ok n := by
  rw [padded, readDigits_zeros htwo hbase (by omega), readDigits_digits htwo hbase hn]

/-- Numerals of a fixed width are written for one natural only. -/
theorem padded_injective (htwo : 2 ≤ base) (hbase : base ≤ 16) (width : Nat) :
    Function.Injective (padded base width) := by
  intro m n h
  have hm := readDigits_padded htwo hbase width (show m < m + n + 1 by omega)
  have hn := readDigits_padded htwo hbase width (show n < m + n + 1 by omega)
  rw [h, hn] at hm
  exact (Except.ok.inj hm).symm

/-- A hexadecimal text is that of one natural only. -/
theorem hexadecimal_injective (width : Nat) : Function.Injective (hexadecimal width) := by
  intro m n h
  exact padded_injective (by decide) (by decide) width (String.ofList_injective h)

/-- A decimal text is that of one natural only. -/
theorem decimal_injective : Function.Injective decimal := by
  intro m n h
  have hpadded : padded 10 0 m = padded 10 0 n := by
    simpa [padded, Nat.zero_sub] using String.ofList_injective h
  exact padded_injective (by decide) (by decide) 0 hpadded

end Unstack.Numeral
