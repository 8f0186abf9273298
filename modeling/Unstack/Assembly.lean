import Unstack.Instruction
import Unstack.Opcode.Table

/-!
# Assembling method bodies

A body written by hand is a list of steps: a label is placed, or an instruction is added by its
mnemonic. Branches name labels, placed before or after them. Offsets are known as instructions are
added, since no width depends on where a label is; labels become offsets at the end.

A step that fails says why, and later steps still apply. A label that is placed again is reported
and counts from then on at its new place.
-/

namespace Unstack

/-- One step of writing a body by hand. -/
inductive Step where
  /-- Places a label. -/
  | label (name : String)
  /-- Adds an instruction without an operand. -/
  | op (mnemonic : String)
  /-- Adds an instruction with an integer or an index. -/
  | int (mnemonic : String) (value : Int)
  /-- Adds an instruction with a real number, given as a double. -/
  | real (mnemonic : String) (bits : UInt64)
  /-- Adds an instruction with a token that is not resolved. -/
  | token (mnemonic : String) (token : Token)
  /-- Adds an instruction with a method. -/
  | method (mnemonic : String) (method : MethodRef)
  /-- Adds a branch to a label. -/
  | branch (mnemonic : String) (label : String)
  /-- Adds a switch over labels. -/
  | switch (labels : List String)
deriving DecidableEq, Repr

/-- Why a step or a whole program cannot be assembled. -/
inductive AssemblyError where
  | unknownMnemonic (mnemonic : String)
  | operandMismatch (mnemonic : String) (expected : OperandType)
  | operandOutOfRange (mnemonic : String) (value : Int)
  | undefinedLabel (label : String)
  | duplicateLabel (label : String)
deriving DecidableEq, Repr

/-- The wording of a fault. -/
def AssemblyError.message : AssemblyError → String
  | .unknownMnemonic mnemonic => "unknown mnemonic '" ++ mnemonic ++ "'"
  | .operandMismatch mnemonic expected =>
    "'" ++ mnemonic ++ "' expects an " ++ expected.name ++ " operand"
  | .operandOutOfRange mnemonic value =>
    "operand " ++ Numeral.signedDecimal value ++ " does not fit '" ++ mnemonic ++ "'"
  | .undefinedLabel label => "label '" ++ label ++ "' is never placed"
  | .duplicateLabel label => "label '" ++ label ++ "' is placed twice"

/-- An operand in which labels may stand for offsets. -/
inductive DraftOperand where
  | known (operand : Operand)
  | label (name : String)
  | labels (names : List String)
deriving DecidableEq, Repr

/-- An instruction whose labels are not yet offsets. -/
structure Draft where
  offset : Offset
  opcode : Opcode
  operand : DraftOperand
deriving DecidableEq, Repr

/-- A body in the making: the instructions so far, the labels placed, the latest first, and the
offset of the next instruction. -/
structure Assembly where
  drafts : List Draft := []
  labels : List (String × Offset) := []
  next : Offset := 0
deriving DecidableEq, Repr

namespace DraftOperand

/-- The number of entries of the switch table, if the operand is one. -/
def entryCount : DraftOperand → Nat
  | .labels names => names.length
  | _ => 0

end DraftOperand

namespace Step

/-- The opcode of a mnemonic, whose operand type must be accepted. -/
def opcode (mnemonic : String) (accepts : OperandType → Bool) : Except AssemblyError Opcode :=
  match Opcode.ofName? mnemonic with
  | none => .error (.unknownMnemonic mnemonic)
  | some opcode =>
    if accepts opcode.operandType then .ok opcode
    else .error (.operandMismatch opcode.name opcode.operandType)

/-- The smallest and the largest integer that an opcode takes. -/
def integerRange (opcode : Opcode) : Int × Int :=
  match opcode.operandType with
  | .shortInlineI => if opcode.hasSignedByte then (-128, 127) else (0, 255)
  | .inlineI => (-2147483648, 2147483647)
  | .inlineI8 => (-9223372036854775808, 9223372036854775807)
  | .shortInlineVar | .shortInlineArg => (0, 255)
  | _ => (0, 65535)

/-- The operand that an integer is for an opcode. -/
def integerOperand (opcode : Opcode) (value : Int) : Operand :=
  match opcode.operandType with
  | .shortInlineI | .inlineI => .int value
  | .inlineI8 => .long value
  | _ => .index value.toNat

/-- The opcode and operand of an integer step. -/
def integer (opcode : Opcode) (value : Int) : Except AssemblyError (Opcode × DraftOperand) :=
  if (integerRange opcode).1 ≤ value ∧ value ≤ (integerRange opcode).2 then
    .ok (opcode, .known (integerOperand opcode value))
  else .error (.operandOutOfRange opcode.name value)

/-- The instruction that a step adds, if it adds one. -/
def draft : Step → Except AssemblyError (Option (Opcode × DraftOperand))
  | .label _ => .ok none
  | .op mnemonic => do
    let o ← opcode mnemonic (· == .inlineNone)
    return some (o, .known .none)
  | .int mnemonic value => do
    let o ← opcode mnemonic OperandType.isInteger
    let added ← integer o value
    return some added
  | .real mnemonic bits => do
    let o ← opcode mnemonic OperandType.isReal
    let operand := if o.operandType = .shortInlineR then .float (Decimal.narrow bits)
      else .double bits
    return some (o, .known operand)
  | .token mnemonic t => do
    let o ← opcode mnemonic OperandType.isToken
    return some (o, .known (.token t))
  | .method mnemonic m => do
    let o ← opcode mnemonic OperandType.isCallable
    return some (o, .known (.method m))
  | .branch mnemonic name => do
    let o ← opcode mnemonic OperandType.isBranch
    return some (o, .label name)
  | .switch names => do
    let o ← opcode "switch" (· == .inlineSwitch)
    return some (o, .labels names)

end Step

namespace Assembly

/-- Adds an instruction at the current offset. -/
def emit (a : Assembly) (opcode : Opcode) (operand : DraftOperand) : Assembly :=
  { a with
    drafts := a.drafts ++ [⟨a.next, opcode, operand⟩]
    next := a.next + opcode.width +
      opcode.operandType.fixedWidth.getD (4 + 4 * operand.entryCount) }

/-- Places a label at the current offset; it is a fault if it was placed before. -/
def place (a : Assembly) (name : String) : Assembly × Option AssemblyError :=
  ({ a with labels := (name, a.next) :: a.labels },
    if (a.labels.lookup name).isSome then some (.duplicateLabel name) else none)

/-- Applies a step and says why it failed, if it did. -/
def apply (a : Assembly) (step : Step) : Assembly × Option AssemblyError :=
  match step with
  | .label name => a.place name
  | step =>
    match step.draft with
    | .error e => (a, some e)
    | .ok none => (a, none)
    | .ok (some (opcode, operand)) => (a.emit opcode operand, none)

/-- Applies steps one after the other, also after one that failed. -/
def applyAll (a : Assembly) (steps : List Step) : Assembly :=
  steps.foldl (fun a step => (a.apply step).1) a

/-- Applies steps as long as none fails. -/
def run (a : Assembly) : List Step → Except AssemblyError Assembly
  | [] => .ok a
  | step :: rest =>
    match a.apply step with
    | (a, none) => a.run rest
    | (_, some e) => .error e

/-- The offset of a label. -/
def labelOffset (a : Assembly) (name : String) : Except AssemblyError Offset :=
  match a.labels.lookup name with
  | some offset => .ok offset
  | none => .error (.undefinedLabel name)

/-- The operand with labels replaced by their offsets. -/
def operand (a : Assembly) : DraftOperand → Except AssemblyError Operand
  | .known operand => .ok operand
  | .label name => do
    let offset ← a.labelOffset name
    return .target offset
  | .labels names => do
    let offsets ← names.mapM a.labelOffset
    return .targets offsets

/-- The instruction of a draft. -/
def instruction (a : Assembly) (draft : Draft) : Except AssemblyError Instruction := do
  let operand ← a.operand draft.operand
  return ⟨draft.offset, draft.opcode, operand⟩

/-- The finished body, if every label that a branch names was placed. -/
def finish (a : Assembly) : Except AssemblyError (List Instruction) :=
  a.drafts.mapM a.instruction

end Assembly

/-- Assembles a program; the first failing step, or else the first label never placed, is the
fault. -/
def assemble (steps : List Step) : Except AssemblyError (List Instruction) :=
  (({} : Assembly).run steps).bind Assembly.finish

end Unstack
