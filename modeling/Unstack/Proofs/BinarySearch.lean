import Unstack.Search
import Mathlib.Tactic.ByContra

/-!
# Binary search

Whatever the items, a place that the search finds is in the range and holds the wanted item. Where the
items ascend, the search finds the wanted item wherever it is.
-/

namespace Unstack.Search

variable {order : Nat → Ordering} {low high : Nat}

/-- A place that is found is in the range, and its item is the wanted one. -/
theorem of_bisect_eq_some {place : Nat} (h : bisect order low high = some place) :
    place < high ∧ order place = .eq := by
  fun_induction bisect order low high with
  | case1 low high hrange middle hmiddle ih => exact ih h
  | case2 low high hrange middle hmiddle =>
    obtain rfl : middle = place := Option.some.inj h
    exact ⟨by omega, hmiddle⟩
  | case3 low high hrange middle hmiddle ih =>
    obtain ⟨hplace, hwanted⟩ := ih h
    exact ⟨by omega, hwanted⟩
  | case4 low high hrange => cases h

/-- The items from `low` on and before `high` ascend strictly: before one that is not too great, all
are too small. -/
def Ascends (order : Nat → Ordering) (low high : Nat) : Prop :=
  ∀ j k, low ≤ j → j < k → k < high → order k ≠ .gt → order j = .lt

/-- Items that ascend do so in every part of the range. -/
theorem Ascends.mono (h : Ascends order low high) {low' high' : Nat} (hlow : low ≤ low')
    (hhigh : high' ≤ high) : Ascends order low' high' := by
  intro j k hj hjk hk
  exact h j k (Nat.le_trans hlow hj) hjk (Nat.lt_of_lt_of_le hk hhigh)

/-- An item compares to the wanted one as their places compare. -/
theorem Ascends.order_eq (h : Ascends order low high) {place j : Nat} (hlow : low ≤ place)
    (hhigh : place < high) (hwanted : order place = .eq) (hj : low ≤ j) (hj' : j < high) :
    order j = compare j place := by
  rcases Nat.lt_trichotomy j place with hbefore | rfl | hbehind
  · rw [Nat.compare_eq_lt.mpr hbefore]
    apply h j place hj hbefore hhigh
    simp [hwanted]
  · rw [hwanted, Nat.compare_eq_eq.mpr rfl]
  · rw [Nat.compare_eq_gt.mpr hbehind]
    by_contra hnot
    have hsmall := h place j hlow hbehind hj' hnot
    rw [hwanted] at hsmall
    cases hsmall

/-- Among items that ascend, the place of the wanted one is found wherever it is, and no other. -/
theorem bisect_eq_some_iff (h : Ascends order low high) (place : Nat) :
    bisect order low high = some place ↔ low ≤ place ∧ place < high ∧ order place = .eq := by
  fun_induction bisect order low high with
  | case1 low high hrange middle hmiddle ih =>
    have hlow : low ≤ middle := Nat.le_add_right low _
    have hhigh : middle < high := by omega
    rw [ih (h.mono (Nat.le_succ_of_le hlow) (Nat.le_refl high))]
    constructor
    · rintro ⟨hplace, hplace', hwanted⟩
      exact ⟨Nat.le_trans hlow (Nat.le_of_succ_le hplace), hplace', hwanted⟩
    · rintro ⟨hplace, hplace', hwanted⟩
      -- the middle is too small, so it is before the wanted place
      have horder := h.order_eq hplace hplace' hwanted hlow hhigh
      rw [hmiddle, eq_comm, Nat.compare_eq_lt] at horder
      exact ⟨horder, hplace', hwanted⟩
  | case2 low high hrange middle hmiddle =>
    have hlow : low ≤ middle := Nat.le_add_right low _
    have hhigh : middle < high := by omega
    rw [Option.some.injEq]
    constructor
    · rintro rfl
      exact ⟨hlow, hhigh, hmiddle⟩
    · rintro ⟨hplace, hplace', hwanted⟩
      have horder := h.order_eq hplace hplace' hwanted hlow hhigh
      rwa [hmiddle, eq_comm, Nat.compare_eq_eq] at horder
  | case3 low high hrange middle hmiddle ih =>
    have hlow : low ≤ middle := Nat.le_add_right low _
    have hhigh : middle < high := by omega
    rw [ih (h.mono (Nat.le_refl low) (Nat.le_of_lt hhigh))]
    constructor
    · rintro ⟨hplace, hplace', hwanted⟩
      exact ⟨hplace, Nat.lt_trans hplace' hhigh, hwanted⟩
    · rintro ⟨hplace, hplace', hwanted⟩
      -- the middle is too great, so it is behind the wanted place
      have horder := h.order_eq hplace hplace' hwanted hlow hhigh
      rw [hmiddle, eq_comm, Nat.compare_eq_gt] at horder
      exact ⟨hplace, horder, hwanted⟩
  | case4 low high hrange =>
    refine iff_of_false (by simp) ?_
    rintro ⟨hplace, hplace', -⟩
    omega

/-- Among items with ascending keys the one with the wanted key is found wherever it is, and no
other. -/
theorem bisect_keys_eq_some_iff {keys : Nat → Option Nat} {size : Nat}
    (hkeys : ∀ k < size, ∃ key, keys k = some key)
    (hascend : ∀ j k a b, j < k → keys j = some a → keys k = some b → a < b) (wanted place : Nat) :
    bisect (fun k => compare (keys k) (some wanted)) 0 size = some place ↔
      place < size ∧ keys place = some wanted := by
  have horder : ∀ k key, keys k = some key → compare (keys k) (some wanted) = compare key wanted := by
    intro k key hkey
    rw [hkey]
    rfl
  have hascends : Ascends (fun k => compare (keys k) (some wanted)) 0 size := by
    intro j k _ hjk hk hnot
    obtain ⟨a, ha⟩ := hkeys j (Nat.lt_trans hjk hk)
    obtain ⟨b, hb⟩ := hkeys k hk
    simp only [horder k b hb, ne_eq, Nat.compare_eq_gt, Nat.not_lt] at hnot
    simp only [horder j a ha, Nat.compare_eq_lt]
    exact Nat.lt_of_lt_of_le (hascend j k a b hjk ha hb) hnot
  rw [bisect_eq_some_iff hascends, and_iff_right (Nat.zero_le place)]
  apply and_congr_right
  intro hplace
  obtain ⟨key, hkey⟩ := hkeys place hplace
  rw [horder place key hkey, Nat.compare_eq_eq, hkey, Option.some.injEq]

end Unstack.Search
