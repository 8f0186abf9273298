/-!
# Opcodes of the Common Intermediate Language

What ECMA-335 (partition III) records of an opcode: its mnemonic and encoding, how it affects
control flow, how many evaluation stack slots it takes and leaves, and what operand follows it
in the instruction stream. The table of all opcodes is in `Unstack.Opcode.Table`.
-/

namespace Unstack

/-- How an opcode affects control flow, as metadata readers classify it. -/
inductive FlowControl where
  | next
  | breakpoint
  | call
  | metadata
  | branch
  | condBranch
  | ret
  | throw
deriving DecidableEq, Repr

/-- The standard's word for a flow control class. -/
def FlowControl.name : FlowControl → String
  | .next => "Next"
  | .breakpoint => "Break"
  | .call => "Call"
  | .metadata => "Meta"
  | .branch => "Branch"
  | .condBranch => "CondBranch"
  | .ret => "Return"
  | .throw => "Throw"

/-- The coarser classes that matter when a body is cut into blocks. -/
inductive FlowKind where
  /-- Goes on with the next instruction. -/
  | fallthrough
  /-- Jumps, always. -/
  | branch
  /-- Jumps or goes on. -/
  | conditional
  /-- Leaves the method or the handler. -/
  | ret
  /-- Raises an exception. -/
  | throw
  /-- Jumps to one of many targets or goes on. -/
  | switch
deriving DecidableEq, Repr

/-- The name of a flow kind. -/
def FlowKind.name : FlowKind → String
  | .fallthrough => "Fallthrough"
  | .branch => "Branch"
  | .conditional => "ConditionalBranch"
  | .ret => "Return"
  | .throw => "Throw"
  | .switch => "Switch"

/-- Can execution go on with the next instruction? -/
def FlowKind.fallsThrough : FlowKind → Bool
  | .fallthrough | .conditional | .switch => true
  | .branch | .ret | .throw => false

/-- How many evaluation stack slots an opcode takes. -/
inductive StackPop where
  | pop0
  | pop1
  | pop2
  | pop3
  /-- Empties the stack. -/
  | popAll
  /-- Depends on a signature. -/
  | varPop
deriving DecidableEq, Repr

/-- The standard's word for a pop behaviour. -/
def StackPop.name : StackPop → String
  | .pop0 => "Pop0"
  | .pop1 => "Pop1"
  | .pop2 => "Pop2"
  | .pop3 => "Pop3"
  | .popAll => "PopAll"
  | .varPop => "VarPop"

/-- How many evaluation stack slots an opcode leaves. -/
inductive StackPush where
  | push0
  | push1
  | push2
  /-- Depends on the return type of the callee. -/
  | varPush
deriving DecidableEq, Repr

/-- The standard's word for a push behaviour. -/
def StackPush.name : StackPush → String
  | .push0 => "Push0"
  | .push1 => "Push1"
  | .push2 => "Push2"
  | .varPush => "VarPush"

/-- The kind of operand that follows an opcode in the instruction stream. -/
inductive OperandType where
  | inlineNone
  | shortInlineI
  | inlineI
  | inlineI8
  | shortInlineR
  | inlineR
  | shortInlineBrTarget
  | inlineBrTarget
  | inlineSwitch
  | inlineMethod
  | inlineField
  | inlineType
  | inlineTok
  | inlineString
  | inlineSig
  | shortInlineVar
  | inlineVar
  | shortInlineArg
  | inlineArg
deriving DecidableEq, Repr

namespace OperandType

/-- The standard's word for an operand type. -/
def name : OperandType → String
  | .inlineNone => "InlineNone"
  | .shortInlineI => "ShortInlineI"
  | .inlineI => "InlineI"
  | .inlineI8 => "InlineI8"
  | .shortInlineR => "ShortInlineR"
  | .inlineR => "InlineR"
  | .shortInlineBrTarget => "ShortInlineBrTarget"
  | .inlineBrTarget => "InlineBrTarget"
  | .inlineSwitch => "InlineSwitch"
  | .inlineMethod => "InlineMethod"
  | .inlineField => "InlineField"
  | .inlineType => "InlineType"
  | .inlineTok => "InlineTok"
  | .inlineString => "InlineString"
  | .inlineSig => "InlineSig"
  | .shortInlineVar => "ShortInlineVar"
  | .inlineVar => "InlineVar"
  | .shortInlineArg => "ShortInlineArg"
  | .inlineArg => "InlineArg"

/-- The number of bytes of the operand; a switch table has no fixed one. -/
def fixedWidth : OperandType → Option Nat
  | .inlineNone => some 0
  | .shortInlineI | .shortInlineBrTarget | .shortInlineVar | .shortInlineArg => some 1
  | .inlineVar | .inlineArg => some 2
  | .inlineI | .shortInlineR | .inlineBrTarget | .inlineMethod | .inlineField | .inlineType
  | .inlineTok | .inlineString | .inlineSig => some 4
  | .inlineI8 | .inlineR => some 8
  | .inlineSwitch => none

/-- Only a switch table has no fixed width. -/
theorem eq_inlineSwitch_of_fixedWidth {type : OperandType} (h : type.fixedWidth = none) :
    type = .inlineSwitch := by
  cases type with
  | inlineSwitch => rfl
  | _ => cases h

/-- Is the operand a metadata token? -/
def isToken : OperandType → Bool
  | .inlineMethod | .inlineField | .inlineType | .inlineTok | .inlineString | .inlineSig => true
  | _ => false

/-- Does the token name a method or a call signature? -/
def isCallable : OperandType → Bool
  | .inlineMethod | .inlineSig => true
  | _ => false

/-- Is the operand a single branch displacement? -/
def isBranch : OperandType → Bool
  | .shortInlineBrTarget | .inlineBrTarget => true
  | _ => false

/-- Is the operand an integer, a local index or an argument index? -/
def isInteger : OperandType → Bool
  | .shortInlineI | .inlineI | .inlineI8 | .shortInlineVar | .shortInlineArg | .inlineVar
  | .inlineArg => true
  | _ => false

/-- Is the operand a floating point number? -/
def isReal : OperandType → Bool
  | .shortInlineR | .inlineR => true
  | _ => false

end OperandType

/-- One opcode: a value up to `0xFF` is encoded in one byte, a value `0xFExx` in two. -/
structure Opcode where
  name : String
  value : Nat
  flow : FlowControl
  pop : StackPop
  push : StackPush
  operandType : OperandType
deriving DecidableEq, Repr

namespace Opcode

/-- The first byte of every opcode of two bytes. -/
def escapeByte : UInt8 := 0xFE

/-- The opcode value of `call`. -/
def call : Nat := 0x28

/-- The opcode value of `calli`. -/
def calli : Nat := 0x29

/-- The opcode value of `ret`. -/
def ret : Nat := 0x2A

/-- The opcode value of `switch`. -/
def switch : Nat := 0x45

/-- The opcode value of `callvirt`. -/
def callvirt : Nat := 0x6F

/-- The opcode value of `newobj`. -/
def newobj : Nat := 0x73

/-- Is the opcode encoded in two bytes? -/
def isTwoByte (opcode : Opcode) : Bool := 0xFF < opcode.value

/-- The number of bytes of the opcode itself. -/
def width (opcode : Opcode) : Nat := if opcode.isTwoByte then 2 else 1

/-- The flow kind of an opcode; of the conditional branches, `switch` is set apart. -/
def flowKind (opcode : Opcode) : FlowKind :=
  match opcode.flow with
  | .next | .breakpoint | .call | .metadata => .fallthrough
  | .branch => .branch
  | .condBranch => if opcode.value = switch then .switch else .conditional
  | .ret => .ret
  | .throw => .throw

/-- Is the short integer immediate of the opcode signed? Only that of `ldc.i4.s` is. -/
def hasSignedByte (opcode : Opcode) : Bool := opcode.name == "ldc.i4.s"

/-- An opcode takes at least one byte. -/
theorem width_pos (opcode : Opcode) : 0 < opcode.width := by
  unfold width
  split <;> omega

end Opcode

end Unstack
