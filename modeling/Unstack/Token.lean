import Unstack.Text.Blank
import Unstack.Text.Numeral

/-!
# Metadata tokens

A token is a 32 bit reference into the metadata of a module: a table in the top byte and a row
in the other three. It is written with eight hexadecimal digits and read from hexadecimal or
decimal text.
-/

namespace Unstack

/-- A reference into the metadata tables of a module. -/
structure Token where
  value : UInt32
deriving DecidableEq, Repr

namespace Token

/-- The metadata table that a token points into. -/
def table (token : Token) : Nat := token.value.toNat / 0x1000000

/-- The row that a token points at. -/
def row (token : Token) : Nat := token.value.toNat % 0x1000000

/-- The written form of a token, such as `0x0A000001`. -/
def text (token : Token) : String := "0x" ++ Numeral.hexadecimal 8 token.value.toNat

/-- The numeral that a trimmed token text holds, with its base: a leading `0x` or `0X` is dropped
and stands for sixteen. -/
def numeral : List Char → Nat × List Char
  | '0' :: 'x' :: digits => (16, digits)
  | '0' :: 'X' :: digits => (16, digits)
  | digits => (10, digits)

/-- Reads a token from text. White space around it is ignored. -/
def parse (text : String) : Except Numeral.Fault Token :=
  let (base, digits) := numeral (Text.trim text.toList)
  (Numeral.read base 0x100000000 digits).map fun n => ⟨UInt32.ofNat n⟩

end Token

end Unstack
