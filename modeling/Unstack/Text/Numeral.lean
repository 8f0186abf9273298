/-!
# Positional numerals

Writing naturals in a base up to sixteen, and reading them back under a bound. Labels, tokens
and register names are written with `digits`; tokens and widths given as text are read with
`read`, which says why a text is not a numeral. Signs other than one leading `+` are faults.
-/

namespace Unstack.Numeral

/-- The character of a digit below sixteen: `0` to `9`, then `A` to `F`. -/
def digitChar (d : Nat) : Char :=
  if d < 10 then Char.ofNat (48 + d) else Char.ofNat (55 + d)

/-- The digits of `n`, most significant first and without a leading zero. -/
def digits (base n : Nat) : List Char :=
  if n < base ∨ base < 2 then [digitChar n]
  else digits base (n / base) ++ [digitChar (n % base)]
termination_by n
decreasing_by
  exact Nat.div_lt_self (by omega) (by omega)

/-- The digits of `n`, filled up with zeros on the left to the given width. -/
def padded (base width n : Nat) : List Char :=
  List.replicate (width - (digits base n).length) '0' ++ digits base n

/-- The decimal text of a natural. -/
def decimal (n : Nat) : String := String.ofList (digits 10 n)

/-- The decimal text of an integer, a minus sign before the negative ones. -/
def signedDecimal : Int → String
  | .ofNat n => decimal n
  | .negSucc n => "-" ++ decimal (n + 1)

/-- The upper case hexadecimal text of a natural, at least `width` digits long. -/
def hexadecimal (width n : Nat) : String := String.ofList (padded 16 width n)

/-- The value of a digit of any base up to sixteen; letters count in either case. -/
def digitValue (c : Char) : Option Nat :=
  if '0' ≤ c ∧ c ≤ '9' then some (c.toNat - 48)
  else if 'a' ≤ c ∧ c ≤ 'f' then some (c.toNat - 87)
  else if 'A' ≤ c ∧ c ≤ 'F' then some (c.toNat - 55)
  else none

/-- The value of a digit of `base`. -/
def digitValueBelow (base : Nat) (c : Char) : Option Nat :=
  (digitValue c).filter (· < base)

/-- Why a text is not a numeral below the bound. -/
inductive Fault where
  | empty
  | invalidDigit
  | tooLarge
deriving DecidableEq, Repr

/-- The wording of a fault. -/
def Fault.message : Fault → String
  | .empty => "cannot parse integer from empty string"
  | .invalidDigit => "invalid digit found in string"
  | .tooLarge => "number too large to fit in target type"

/-- Reads digits onto an accumulator. The first character that is no digit, or that takes the
value to the bound, decides the fault. -/
def readDigits (base bound : Nat) : Nat → List Char → Except Fault Nat
  | value, [] => .ok value
  | value, c :: rest =>
    match digitValueBelow base c with
    | none => .error .invalidDigit
    | some d =>
      if value * base + d < bound then readDigits base bound (value * base + d) rest
      else .error .tooLarge

/-- Reads a numeral below the bound, with at most one leading plus sign. -/
def read (base bound : Nat) : List Char → Except Fault Nat
  | [] => .error .empty
  | ['+'] => .error .invalidDigit
  | '+' :: rest => readDigits base bound 0 rest
  | text => readDigits base bound 0 text

end Unstack.Numeral
