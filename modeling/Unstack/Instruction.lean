import Unstack.Decimal.Binary
import Unstack.Offset
import Unstack.Opcode
import Unstack.Signature

/-!
# Instructions

An instruction is an opcode with its operand at an offset of a method body. Branch operands are
absolute offsets, method tokens are resolved. Here are the facts that later stages ask of one
instruction: where it may go, how wide it is, and how it is written.
-/

namespace Unstack

/-- The operand of an instruction. -/
inductive Operand where
  | none
  /-- A signed immediate of up to 32 bits. -/
  | int (value : Int)
  /-- A signed immediate of 64 bits. -/
  | long (value : Int)
  /-- The pattern of a single. -/
  | float (bits : UInt32)
  /-- The pattern of a double. -/
  | double (bits : UInt64)
  /-- The index of a local or an argument. -/
  | index (value : Nat)
  /-- A token that stands for no known method. -/
  | token (token : Token)
  /-- A method, resolved from its token. -/
  | method (method : MethodRef)
  /-- The target of a branch. -/
  | target (target : Offset)
  /-- The targets of a switch, in table order. -/
  | targets (targets : List Offset)
deriving DecidableEq, Repr

namespace Operand

/-- The written form of an operand. -/
def text : Operand → String
  | .none => ""
  | .int value => Numeral.signedDecimal value
  | .long value => Numeral.signedDecimal value
  | .float bits => Decimal.single.text bits.toNat
  | .double bits => Decimal.double.text bits.toNat
  | .index value => Numeral.decimal value
  | .token t => t.text
  | .method m => m.fullName
  | .target o => o.label
  | .targets os => "(" ++ String.intercalate ", " (os.map Offset.label) ++ ")"

/-- The offsets that an operand names as targets. -/
def targetList : Operand → List Offset
  | .target o => [o]
  | .targets os => os
  | _ => []

end Operand

/-- One instruction of a method body. -/
structure Instruction where
  offset : Offset
  opcode : Opcode
  operand : Operand
deriving DecidableEq, Repr

namespace Instruction

/-- The flow kind of the opcode. -/
def flowKind (i : Instruction) : FlowKind := i.opcode.flowKind

/-- The static branch targets, in table order. -/
def branchTargets (i : Instruction) : List Offset := i.operand.targetList

/-- Can execution go on with the next instruction? -/
def fallsThrough (i : Instruction) : Bool := i.flowKind.fallsThrough

/-- The method that the operand names. -/
def methodRef? (i : Instruction) : Option MethodRef :=
  match i.operand with
  | .method method => some method
  | _ => none

/-- The number of bytes of the operand; a switch has a count and one entry for each target. -/
def operandWidth (i : Instruction) : Nat :=
  i.opcode.operandType.fixedWidth.getD (4 + 4 * i.branchTargets.length)

/-- The number of bytes of the instruction. -/
def width (i : Instruction) : Nat := i.opcode.width + i.operandWidth

/-- The offset just after the instruction. -/
def nextOffset (i : Instruction) : Offset := i.offset + i.width

/-- The written form: label, mnemonic, and the operand if the opcode takes one. -/
def text (i : Instruction) : String :=
  i.offset.label ++ ": " ++ i.opcode.name ++
    (if i.opcode.operandType = .inlineNone ∨ i.operand = .none then ""
    else " " ++ i.operand.text)

/-- An instruction takes at least one byte. -/
theorem width_pos (i : Instruction) : 0 < i.width :=
  Nat.lt_of_lt_of_le i.opcode.width_pos (Nat.le_add_right _ _)

/-- The width of an operand whose type fixes it. -/
theorem operandWidth_of_type (i : Instruction) {type : OperandType} {width : Nat}
    (htype : i.opcode.operandType = type) (hwidth : type.fixedWidth = some width) :
    i.operandWidth = width := by
  rw [operandWidth, htype, hwidth, Option.getD_some]

/-- The width of a switch table. -/
theorem operandWidth_of_targets (i : Instruction) {targets : List Offset}
    (htype : i.opcode.operandType = .inlineSwitch) (htargets : i.operand = .targets targets) :
    i.operandWidth = 4 + 4 * targets.length := by
  rw [operandWidth, htype, branchTargets, htargets]
  rfl

end Instruction

/-- The offset just after a method body, if it has any instruction. -/
def endOfBody? (body : List Instruction) : Option Offset :=
  body.getLast?.map Instruction.nextOffset

end Unstack
