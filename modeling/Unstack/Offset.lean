import Unstack.Text.Numeral

/-!
# Byte offsets

An offset is a position in a method body, counted in bytes. It doubles as the label under which
the instruction there is printed.
-/

namespace Unstack

/-- A byte position in a method body. -/
abbrev Offset := Nat

namespace Offset

/-- The label of an offset: `IL_` and at least four hexadecimal digits. -/
def label (offset : Offset) : String := "IL_" ++ Numeral.hexadecimal 4 offset

/-- The offset reached from a position by a signed displacement, if it is not before the start
of the body. -/
def reach (position displacement : Int) : Option Offset :=
  if 0 ≤ position + displacement then some (position + displacement).toNat else none

/-- The offset as a machine holds it in a signed word of 64 bits. -/
def asSigned (offset : Offset) : Int := Int.bmod offset 0x10000000000000000

end Offset

end Unstack
