import Unstack.Bytes
import Unstack.Instruction

/-!
# Encoding method bodies

Instructions into bytes, as ECMA-335 lays them out: the opcode, then the operand little-endian in
the width of its type. Branch displacements count from the end of the instruction, and a switch
table is preceded by the number of its entries.
-/

namespace Unstack

namespace Opcode

/-- The bytes of an opcode. -/
def encode (opcode : Opcode) : List UInt8 :=
  if opcode.isTwoByte then [escapeByte, UInt8.ofNat (opcode.value % 256)]
  else [UInt8.ofNat opcode.value]

end Opcode

namespace Instruction

/-- The displacement that leads from the end of the instruction to a target. -/
def displacement (i : Instruction) (target : Offset) : Int := (target : Int) - i.nextOffset

/-- The bytes of the operand. -/
def encodeOperand (i : Instruction) : List UInt8 :=
  match i.operand with
  | .none => []
  | .int value | .long value => Bytes.ofInt i.operandWidth value
  | .float bits => Bytes.ofNat 4 bits.toNat
  | .double bits => Bytes.ofNat 8 bits.toNat
  | .index value => Bytes.ofNat i.operandWidth value
  | .token token => Bytes.ofNat 4 token.value.toNat
  | .method method => Bytes.ofNat 4 method.token.value.toNat
  | .target target => Bytes.ofInt i.operandWidth (i.displacement target)
  | .targets targets =>
    Bytes.ofNat 4 targets.length ++ targets.flatMap fun t => Bytes.ofInt 4 (i.displacement t)

/-- The bytes of an instruction. -/
def encode (i : Instruction) : List UInt8 := i.opcode.encode ++ i.encodeOperand

end Instruction

/-- The bytes of a method body. -/
def encodeBody (body : List Instruction) : List UInt8 := body.flatMap Instruction.encode

end Unstack
