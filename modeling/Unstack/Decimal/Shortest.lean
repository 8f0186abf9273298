import Unstack.Text.Numeral

/-!
# Shortest decimals

The decimal with the fewest digits in an interval of rationals around a value, and its text
without an exponent. All arithmetic is exact, on naturals: the value and the two ends of the
interval share one denominator.
-/

namespace Unstack.Decimal

/-- A positive value with the ends of the interval of what counts as equal to it, all over
`den`. -/
structure Target where
  low : Nat
  value : Nat
  high : Nat
  den : Nat
  /-- Do the ends themselves belong to the interval? -/
  closed : Bool
deriving DecidableEq, Repr

/-- The decimal `digits * 10 ^ exponent`. -/
structure Scaled where
  digits : Nat
  exponent : Int
deriving DecidableEq, Repr

namespace Target

/-- Ten to the power of an integer, as numerator and denominator. -/
def tenPow (e : Int) : Nat × Nat :=
  if 0 ≤ e then (Nat.pow 10 e.toNat, 1) else (1, Nat.pow 10 (-e).toNat)

/-- The power of ten just above the value: `10 ^ (m - 1) ≤ value < 10 ^ m`. -/
def magnitude (t : Target) : Int :=
  let guess : Int :=
    ((Numeral.digits 10 t.value).length : Int) - ((Numeral.digits 10 t.den).length : Int)
  let (up, down) := tenPow guess
  if t.den * up ≤ t.value * down then guess + 1 else guess

/-- Does the interval contain `count` steps of `step` over the refined denominator? -/
def contains (t : Target) (step refine count : Nat) : Bool :=
  if t.closed then t.low * refine ≤ count * step && count * step ≤ t.high * refine
  else t.low * refine < count * step && count * step < t.high * refine

/-- The decimal of the interval with the given last place that is nearest to the value. Only the
two neighbours of the value need a look; of two equally near ones the upper is taken. -/
def atPlace (t : Target) (place : Int) : Option Scaled :=
  let (up, refine) := tenPow place
  let step := t.den * up
  let below := t.value * refine / step
  let lowGap := t.value * refine - below * step
  let highGap := (below + 1) * step - t.value * refine
  match t.contains step refine below, t.contains step refine (below + 1) with
  | true, true => some ⟨if lowGap < highGap then below else below + 1, place⟩
  | true, false => some ⟨below, place⟩
  | false, true => some ⟨below + 1, place⟩
  | false, false => none

/-- The decimal of the interval with the fewest digits, at most `limit`; the value cut off at
that many digits if the interval holds none. -/
def shortest (limit : Nat) (t : Target) : Scaled :=
  let m := t.magnitude
  match (List.range' 1 limit).findSome? fun count : Nat => t.atPlace (m - count) with
  | some decimal => decimal
  | none =>
    let (up, refine) := tenPow (m - limit)
    ⟨t.value * refine / (t.den * up), m - limit⟩

end Target

/-- The text of a decimal without an exponent: no zeros at the end of the fraction, and no point
when there is no fraction. -/
def Scaled.positional (decimal : Scaled) : List Char :=
  let written := Numeral.digits 10 decimal.digits
  let zeros := (written.reverse.takeWhile (· == '0')).length
  let digits := written.take (written.length - zeros)
  let exponent := decimal.exponent + zeros
  if 0 ≤ exponent then digits ++ List.replicate exponent.toNat '0'
  else
    let places := (-exponent).toNat
    if places < digits.length then
      digits.take (digits.length - places) ++ '.' :: digits.drop (digits.length - places)
    else '0' :: '.' :: (List.replicate (places - digits.length) '0' ++ digits)

end Unstack.Decimal
