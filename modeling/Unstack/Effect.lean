import Unstack.Graph
import Unstack.Stack

/-!
# Stack effects

How many values an instruction takes from the evaluation stack and how many it leaves. Most
opcodes have a fixed effect; that of a call depends on the signature of the callee and that of a
return on the signature of the method it stands in.
-/

namespace Unstack

/-- Why a method body cannot be lowered. -/
inductive LowerError where
  /-- The body is not well formed. -/
  | malformed (cause : GraphError)
  /-- An instruction takes more values than there are. -/
  | unbalanced (offset : Offset) (mnemonic : String) (depth required : Nat)
  /-- The effect of an instruction on the stack is not known. -/
  | unknownEffect (offset : Offset) (mnemonic : String)
deriving DecidableEq, Repr

/-- The wording of a fault. -/
def LowerError.message : LowerError → String
  | .malformed cause => "malformed bytecode: " ++ cause.message
  | .unbalanced offset mnemonic depth required =>
    "unbalanced stack: " ++ mnemonic ++ " at " ++ offset.label ++ " pops " ++
      Numeral.decimal required ++ " value(s) but the stack holds " ++ Numeral.decimal depth
  | .unknownEffect offset mnemonic =>
    "invalid stack effect for " ++ mnemonic ++ " at " ++ offset.label

/-- The values that an instruction takes. -/
inductive Pops where
  | count (n : Nat)
  /-- Whatever is on the stack. -/
  | all
deriving DecidableEq, Repr

/-- What an instruction does to the evaluation stack. -/
structure Effect where
  pops : Pops
  pushes : Nat
deriving DecidableEq, Repr

namespace Effect

/-- Does the opcode call a method or create an object? -/
def isCall (opcode : Opcode) : Bool :=
  opcode.value == Opcode.call || opcode.value == Opcode.callvirt ||
    opcode.value == Opcode.newobj || opcode.value == Opcode.calli

/-- The values that a call takes: the parameters, `this` unless the call creates it, and the
function pointer of an indirect call. -/
def callPops (opcode : Opcode) (callee : Signature) : Nat :=
  callee.parameters.length +
    (if callee.implicitThis && opcode.value != Opcode.newobj then 1 else 0) +
    (if opcode.value == Opcode.calli then 1 else 0)

/-- The values that an instruction of a method takes. -/
def popsOf (i : Instruction) (method : Signature) : Option Pops :=
  match i.opcode.pop with
  | .pop0 => some (.count 0)
  | .pop1 => some (.count 1)
  | .pop2 => some (.count 2)
  | .pop3 => some (.count 3)
  | .popAll => some .all
  | .varPop =>
    if i.opcode.value = Opcode.ret then some (.count (if method.returnsVoid then 0 else 1))
    else if isCall i.opcode then
      i.methodRef?.map fun callee => .count (callPops i.opcode callee.signature)
    else none

/-- The values that an instruction leaves. -/
def pushesOf (i : Instruction) : Option Nat :=
  match i.opcode.push with
  | .push0 => some 0
  | .push1 => some 1
  | .push2 => some 2
  | .varPush =>
    if isCall i.opcode && i.opcode.value != Opcode.newobj then
      i.methodRef?.map fun callee => if callee.signature.returnsVoid then 0 else 1
    else none

/-- The effect of an instruction of a method with the given signature. -/
def of (i : Instruction) (method : Signature) : Except LowerError Effect :=
  match popsOf i method, pushesOf i with
  | some pops, some pushes => .ok ⟨pops, pushes⟩
  | _, _ => .error (.unknownEffect i.offset i.opcode.name)

end Effect

end Unstack
