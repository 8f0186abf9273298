import Unstack.Decimal.Shortest

/-!
# Binary floating point numbers

Bit patterns of the binary interchange formats: what number a pattern stands for, the pattern
nearest to a number, and the text of a pattern. Immediates of instructions are held as patterns,
so nothing here depends on machine arithmetic.
-/

namespace Unstack.Decimal

/-- The sizes of a format's exponent and fraction fields, and how many decimal digits tell its
numbers apart. -/
structure BinaryFormat where
  exponentBits : Nat
  fractionBits : Nat
  decimalDigits : Nat
deriving DecidableEq, Repr

/-- The format of 32 bits. -/
def single : BinaryFormat := ⟨8, 23, 9⟩

/-- The format of 64 bits. -/
def double : BinaryFormat := ⟨11, 52, 17⟩

/-- What a pattern stands for. A finite number is `significand * 2 ^ exponent`; `edge` says that
the numbers below it lie twice as dense as those above. -/
inductive Number where
  | nan
  | infinite (negative : Bool)
  | finite (negative : Bool) (significand : Nat) (exponent : Int) (edge : Bool)
deriving DecidableEq, Repr

namespace BinaryFormat

/-- The exponent of the last place of the smallest numbers. -/
def leastExponent (f : BinaryFormat) : Int :=
  2 - (Nat.pow 2 (f.exponentBits - 1) : Nat) - f.fractionBits

/-- The pattern of positive infinity. -/
def infinity (f : BinaryFormat) : Nat := (Nat.pow 2 f.exponentBits - 1) * Nat.pow 2 f.fractionBits

/-- The pattern of the sign alone. -/
def signBit (f : BinaryFormat) : Nat := Nat.pow 2 (f.exponentBits + f.fractionBits)

/-- The number that a pattern stands for. -/
def decode (f : BinaryFormat) (bits : Nat) : Number :=
  let negative := bits / f.signBit % 2 == 1
  let fraction := bits % Nat.pow 2 f.fractionBits
  let field := bits / Nat.pow 2 f.fractionBits % Nat.pow 2 f.exponentBits
  if field = Nat.pow 2 f.exponentBits - 1 then
    if fraction = 0 then .infinite negative else .nan
  else if field = 0 then .finite negative fraction f.leastExponent false
  else .finite negative (Nat.pow 2 f.fractionBits + fraction) (f.leastExponent + (field - 1 : Nat))
    (fraction = 0 && 1 < field)

/-- A natural over a power of two, rounded to the nearest natural, a half to the even one. -/
def roundShift (n shift : Nat) : Nat :=
  let unit := Nat.pow 2 shift
  let quotient := n / unit
  let twice := 2 * (n % unit)
  if twice < unit ∨ (twice = unit ∧ quotient % 2 = 0) then quotient else quotient + 1

/-- The pattern, without sign, of the number of the format nearest to
`significand * 2 ^ exponent`, a half going to the even significand. -/
def nearest (f : BinaryFormat) (significand : Nat) (exponent : Int) : Nat :=
  if significand = 0 then 0
  else
    let length : Int := Nat.log2 significand + 1
    let place := max (exponent + (length - (f.fractionBits + 1))) f.leastExponent
    let rounded :=
      if exponent ≤ place then roundShift significand (place - exponent).toNat
      else significand * Nat.pow 2 (exponent - place).toNat
    min ((place - f.leastExponent).toNat * Nat.pow 2 f.fractionBits + rounded) f.infinity

/-- The pattern that holds a number in another format; a payload of a NaN is not kept. -/
def encode (f : BinaryFormat) : Number → Nat
  | .nan => f.infinity + Nat.pow 2 (f.fractionBits - 1)
  | .infinite negative => (if negative then f.signBit else 0) + f.infinity
  | .finite negative significand exponent _ =>
    (if negative then f.signBit else 0) + f.nearest significand exponent

/-- The interval of the reals that round to a finite positive number; an even significand also
takes its two ends. -/
def interval (significand : Nat) (exponent : Int) (edge : Bool) : Target :=
  let scale := exponent - 2
  let up := if 0 ≤ scale then Nat.pow 2 scale.toNat else 1
  { low := (4 * significand - (if edge then 1 else 2)) * up
    value := 4 * significand * up
    high := (4 * significand + 2) * up
    den := if 0 ≤ scale then 1 else Nat.pow 2 (-scale).toNat
    closed := significand % 2 == 0 }

/-- The text of a pattern: the fewest digits that read back as the same number, never an
exponent. -/
def text (f : BinaryFormat) (bits : Nat) : String :=
  match f.decode bits with
  | .nan => "NaN"
  | .infinite negative => if negative then "-inf" else "inf"
  | .finite negative significand exponent edge =>
    let sign := if negative then "-" else ""
    if significand = 0 then sign ++ "0"
    else
      sign ++ String.ofList
        ((interval significand exponent edge).shortest f.decimalDigits).positional

end BinaryFormat

/-- The single nearest to a double. -/
def narrow (bits : UInt64) : UInt32 :=
  UInt32.ofNat (single.encode (double.decode bits.toNat))

end Unstack.Decimal
