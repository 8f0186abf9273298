import Unstack.Effect

/-!
# Lowered instructions

An instruction in register form: the slots that it takes from and leaves on the evaluation stack
are named as registers. One step lowers one instruction against a stack; both strategies lower
through it and differ only in the stack that they start it from.
-/

namespace Unstack

/-- An instruction with its stack slots named; registers are listed from the deepest slot up. -/
structure Lowered where
  source : Instruction
  inputs : List Register
  outputs : List Register
deriving DecidableEq, Repr

/-- A lowered method body with the number of registers that it needs. -/
structure Listing where
  instructions : List Lowered
  registers : Nat
deriving DecidableEq, Repr

namespace Lowered

/-- The offsets that the instruction may jump to. -/
def targets (l : Lowered) : List Offset :=
  match l.source.flowKind with
  | .branch | .conditional | .switch => l.source.branchTargets
  | .fallthrough | .ret | .throw => []

/-- The written form of a lowered instruction: label, outputs, mnemonic, inputs, targets. -/
def text (l : Lowered) : String :=
  l.source.offset.label ++ ": " ++
    (if l.outputs.isEmpty then ""
    else String.join (l.outputs.map fun r => r.name ++ " ") ++ "<- ") ++
    l.source.opcode.name ++ String.join (l.inputs.map fun r => " " ++ r.name) ++
    (if l.targets.isEmpty then ""
    else (if l.targets.length = 1 then " | target:" else " | targets:") ++
      String.join (l.targets.map fun t => " " ++ t.label))

/-- Lowers one instruction of a method and gives the stack that it leaves. -/
def step (method : Signature) (stack : EvalStack) (i : Instruction) :
    Except LowerError (Lowered × EvalStack) :=
  match Effect.of i method with
  | .error e => .error e
  | .ok ⟨.all, pushes⟩ =>
    let (outputs, left) := stack.clear.push pushes
    .ok (⟨i, [], outputs⟩, left)
  | .ok ⟨.count required, pushes⟩ =>
    match stack.pop? required with
    | none => .error (.unbalanced i.offset i.opcode.name stack.depth required)
    | some (inputs, rest) =>
      let (outputs, left) := rest.push pushes
      .ok (⟨i, inputs, outputs⟩, left)

/-- Lowers instructions that follow each other. -/
def run (method : Signature) : EvalStack → List Instruction →
    Except LowerError (List Lowered × EvalStack)
  | stack, [] => .ok ([], stack)
  | stack, i :: rest =>
    match step method stack i with
    | .error e => .error e
    | .ok (l, left) =>
      match run method left rest with
      | .error e => .error e
      | .ok (ls, final) => .ok (l :: ls, final)

end Lowered

end Unstack
